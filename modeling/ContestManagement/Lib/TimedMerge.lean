import Mathlib.Data.List.Sort
import Mathlib.Data.List.TakeWhile
import Mathlib.Tactic.Linarith

/-!
# Merging lists with a priority queue

Several lists, each under a key, are merged with a priority queue that holds the first entry of
each list: the entry with the least rank is taken, and the next one of its list comes in.  The
merge stops at the first entry for which `stop` holds.

The queue is a list in the order of the ranks: what a heap gives out does not depend on how it
lays out its items as long as no two of them have the same rank.

If an entry after one that stops stops too, a merge that stops is the full merge of lists cut
short, so it depends on nothing that comes behind the cuts.
-/

namespace ContestManagement
namespace Lib

/-- Where what passes a test stands before what fails it, the first to pass are all that pass. -/
theorem takeWhile_eq_filter {α : Type} {p : α → Bool} {l : List α}
    (h : l.Pairwise fun a b => p b = true → p a = true) : l.takeWhile p = l.filter p := by
  induction l with
  | nil => rfl
  | cons a l ih =>
      have hcons := List.pairwise_cons.1 h
      cases ha : p a with
      | true => rw [List.takeWhile_cons_of_pos ha, List.filter_cons_of_pos ha, ih hcons.2]
      | false =>
          have hnone : l.filter p = [] := by
            rw [List.filter_eq_nil_iff]
            intro b hb hpb
            rw [hcons.1 b hb hpb] at ha
            cases ha
          rw [List.takeWhile_cons_of_neg (by simp [ha]), List.filter_cons_of_neg (by simp [ha]),
            hnone]

/-- The first entry of a list under a key, and the entries after it. -/
structure Source (κ ε : Type) where
  key : κ
  head : ε
  later : List ε
  deriving DecidableEq

namespace Source

variable {κ ε ρ : Type} [LinearOrder ρ] (rank : ε → κ → ρ)

/-- The order of the queue. -/
def Before (a b : Source κ ε) : Prop :=
  rank a.head a.key ≤ rank b.head b.key

instance : DecidableRel (Before rank) :=
  fun a b => inferInstanceAs (Decidable (rank a.head a.key ≤ rank b.head b.key))

/-- The source of a list, if it has an entry. -/
def ofList (key : κ) : List ε → Option (Source κ ε)
  | [] => none
  | head :: later => some ⟨key, head, later⟩

/-- Put a source, if there is one, into the queue. -/
def push (source : Option (Source κ ε)) (queue : List (Source κ ε)) : List (Source κ ε) :=
  match source with
  | none => queue
  | some s => queue.orderedInsert (Before rank) s

/-- The merge, with a bound on the number of entries taken. -/
def merge (stop : ε → Bool) : Nat → List (Source κ ε) → List (κ × ε)
  | 0, _ => []
  | _, [] => []
  | fuel + 1, s :: queue =>
      if stop s.head then []
      else (s.key, s.head) :: merge stop fuel (push rank (ofList s.key s.later) queue)

/-- The number of entries in the queue. -/
def size (queue : List (Source κ ε)) : Nat :=
  (queue.map fun s => s.later.length + 1).sum

/-- The queue of some lists. -/
def queueOf (lists : List (κ × List ε)) : List (Source κ ε) :=
  (lists.filterMap fun item => ofList item.1 item.2).insertionSort (Before rank)

/-- A list of entries cut before the first one that stops. -/
def cut (stop : ε → Bool) (entries : List ε) : List ε :=
  entries.takeWhile fun e => !stop e

/-- The lists of a source cut short. -/
def cutSource (stop : ε → Bool) (s : Source κ ε) : Source κ ε :=
  { s with later := cut stop s.later }

/-- A queue whose lists are cut short. -/
def cutQueue (stop : ε → Bool) (queue : List (Source κ ε)) : List (Source κ ε) :=
  (queue.filter fun s => !stop s.head).map (cutSource stop)

variable {rank} {stop : ε → Bool}

theorem before_total (a b : Source κ ε) : Before rank a b ∨ Before rank b a :=
  le_total _ _

instance : Std.Total (Before rank) := ⟨before_total⟩

instance : IsTrans (Source κ ε) (Before rank) := ⟨fun _ _ _ hab hbc => hab.trans hbc⟩

/-! ## Sizes -/

theorem size_perm {queue queue' : List (Source κ ε)} (h : queue.Perm queue') :
    size queue = size queue' := by
  unfold size
  exact (h.map _).sum_nat

theorem size_push (key : κ) (entries : List ε) (queue : List (Source κ ε)) :
    size (push rank (ofList key entries) queue) = entries.length + size queue := by
  cases entries with
  | nil => simp [ofList, push]
  | cons e rest =>
      show size (queue.orderedInsert (Before rank) ⟨key, e, rest⟩) = _
      rw [size_perm (List.perm_orderedInsert _ _ _)]
      simp [size]

theorem size_cutQueue_le (stop : ε → Bool) (queue : List (Source κ ε)) :
    size (cutQueue stop queue) ≤ size queue := by
  induction queue with
  | nil => exact le_refl _
  | cons s queue ih =>
      have hcut : (cut stop s.later).length ≤ s.later.length :=
        (List.takeWhile_prefix _).length_le
      unfold cutQueue size at *
      by_cases hstop : stop s.head = true
      · simp only [hstop, List.filter_cons, Bool.not_true, Bool.false_eq_true, if_false,
          List.map_cons, List.sum_cons]
        omega
      · simp only [hstop, List.filter_cons, Bool.not_false, if_true, List.map_cons, List.sum_cons,
          cutSource]
        omega

/-- The merge does not run out of fuel. -/
theorem merge_fuel {fuel : Nat} {queue : List (Source κ ε)} (h : size queue ≤ fuel) :
    merge rank stop fuel queue = merge rank stop (size queue) queue := by
  induction fuel generalizing queue with
  | zero =>
      rw [Nat.le_zero.1 h]
  | succ fuel ih =>
      cases queue with
      | nil => rfl
      | cons s queue =>
          have hsize : size (s :: queue) =
              size (push rank (ofList s.key s.later) queue) + 1 := by
            rw [size_push]
            simp only [size, List.map_cons, List.sum_cons]
            omega
          rw [hsize] at h ⊢
          unfold merge
          rw [ih (by omega)]

/-! ## The order of the queue -/

theorem pairwise_push {queue : List (Source κ ε)} (h : queue.Pairwise (Before rank))
    (source : Option (Source κ ε)) : (push rank source queue).Pairwise (Before rank) := by
  cases source with
  | none => exact h
  | some s => exact List.Pairwise.orderedInsert s queue h

theorem pairwise_queueOf (lists : List (κ × List ε)) :
    (queueOf rank lists).Pairwise (Before rank) :=
  List.pairwise_insertionSort _ _

theorem orderedInsert_of_forall {s : Source κ ε} {queue : List (Source κ ε)}
    (h : ∀ other ∈ queue, Before rank s other) : queue.orderedInsert (Before rank) s = s :: queue := by
  cases queue with
  | nil => rfl
  | cons first rest => rw [List.orderedInsert_cons, if_pos (h first (by simp))]

/-- Filtering a queue in order and inserting go together. -/
theorem filter_orderedInsert (p : Source κ ε → Bool) (s : Source κ ε) {queue : List (Source κ ε)}
    (h : queue.Pairwise (Before rank)) :
    (queue.orderedInsert (Before rank) s).filter p =
      if p s then (queue.filter p).orderedInsert (Before rank) s else queue.filter p := by
  induction queue with
  | nil => cases hp : p s <;> simp [hp]
  | cons first rest ih =>
      have hcons := List.pairwise_cons.1 h
      rw [List.orderedInsert_cons]
      by_cases hbefore : Before rank s first
      · -- The source stands before all the others, also before those that are kept.
        have hall : ∀ other ∈ (first :: rest).filter p, Before rank s other := by
          intro other hother
          rcases List.mem_cons.1 (List.mem_of_mem_filter hother) with rfl | hrest
          · exact hbefore
          · exact hbefore.trans (hcons.1 other hrest)
        rw [if_pos hbefore, orderedInsert_of_forall hall, List.filter_cons]
      · rw [if_neg hbefore, List.filter_cons, ih hcons.2, List.filter_cons]
        cases p s <;> cases p first <;> simp [hbefore]

theorem map_cutSource_orderedInsert (stop : ε → Bool) (s : Source κ ε) (queue : List (Source κ ε)) :
    (queue.orderedInsert (Before rank) s).map (cutSource stop) =
      (queue.map (cutSource stop)).orderedInsert (Before rank) (cutSource stop s) :=
  List.map_orderedInsert _ _ _ _ _ (fun _ _ => Iff.rfl) (fun _ _ => Iff.rfl)

theorem ofList_cut (key : κ) (entries : List ε) :
    ofList key (cut stop entries) =
      ((ofList key entries).filter fun s => !stop s.head).map (cutSource stop) := by
  cases entries with
  | nil => rfl
  | cons e rest =>
      cases hstop : stop e <;> simp [cut, ofList, hstop, cutSource, Option.filter]

theorem cutQueue_push {queue : List (Source κ ε)} (h : queue.Pairwise (Before rank)) (key : κ)
    (entries : List ε) :
    cutQueue stop (push rank (ofList key entries) queue) =
      push rank (ofList key (cut stop entries)) (cutQueue stop queue) := by
  rw [ofList_cut]
  cases hsource : ofList key entries with
  | none => rfl
  | some s =>
      unfold cutQueue push
      rw [filter_orderedInsert _ _ h]
      cases hstop : stop s.head <;>
        simp [Option.filter, hstop, map_cutSource_orderedInsert]

/-! ## Cutting the lists -/

section Cut

variable (hstop : ∀ a b : Source κ ε, Before rank a b → stop a.head = true → stop b.head = true)

include hstop

/-- A merge that stops is the full merge of the lists cut short. -/
theorem merge_eq_cutQueue (fuel : Nat) {queue : List (Source κ ε)}
    (h : queue.Pairwise (Before rank)) :
    merge rank stop fuel queue = merge rank (fun _ => false) fuel (cutQueue stop queue) := by
  induction fuel generalizing queue with
  | zero => rfl
  | succ fuel ih =>
      cases queue with
      | nil => rfl
      | cons s queue =>
          have hcons := List.pairwise_cons.1 h
          by_cases hs : stop s.head = true
          · -- All the others stop too, so nothing is left of the queue.
            have hempty : cutQueue stop (s :: queue) = [] := by
              unfold cutQueue
              rw [List.map_eq_nil_iff, List.filter_eq_nil_iff]
              intro other hother
              have hother' : stop other.head = true := by
                rcases List.mem_cons.1 hother with rfl | hrest
                · exact hs
                · exact hstop s other (hcons.1 other hrest) hs
              simp [hother']
            rw [hempty]
            unfold merge
            rw [if_pos hs]
          · have hcut : cutQueue stop (s :: queue) = cutSource stop s :: cutQueue stop queue := by
              unfold cutQueue
              simp [hs]
            rw [hcut]
            unfold merge
            rw [if_neg hs, if_neg (by simp), ih (pairwise_push hcons.2 _), cutQueue_push hcons.2]
            rfl

omit hstop in
theorem mem_cutQueue_queueOf {lists : List (κ × List ε)} {s : Source κ ε} :
    s ∈ cutQueue stop (queueOf rank lists) ↔
      ∃ entries, (s.key, entries) ∈ lists ∧ cut stop entries = s.head :: s.later := by
  have hofList : ∀ key entries, ofList key (cut stop entries) = some s ↔
      s.key = key ∧ cut stop entries = s.head :: s.later := by
    intro key entries
    obtain ⟨skey, head, later⟩ := s
    cases cut stop entries with
    | nil => simp [ofList]
    | cons e rest => simp [ofList, eq_comm]
  unfold cutQueue queueOf
  simp only [List.mem_map, List.mem_filter, (List.perm_insertionSort _ _).mem_iff,
    List.mem_filterMap]
  constructor
  · rintro ⟨t, ⟨⟨⟨key, entries⟩, hmem, ht⟩, hhead⟩, rfl⟩
    have hsome : ofList key (cut stop entries) = some (cutSource stop t) := by
      dsimp only at ht
      rw [ofList_cut, ht, Option.filter_some, if_pos hhead, Option.map_some]
    obtain ⟨hkey, hcut⟩ := (hofList key entries).1 hsome
    exact ⟨entries, by rwa [hkey], hcut⟩
  · rintro ⟨entries, hmem, hcut⟩
    have hsome := (hofList s.key entries).2 ⟨rfl, hcut⟩
    rw [ofList_cut, Option.map_eq_some_iff] at hsome
    obtain ⟨t, ht, hts⟩ := hsome
    rw [Option.filter_eq_some_iff] at ht
    exact ⟨t, ⟨⟨(s.key, entries), hmem, ht.1⟩, ht.2⟩, hts⟩

omit hstop in
theorem nodup_keys_cutQueue {lists : List (κ × List ε)} (hkeys : (lists.map Prod.fst).Nodup) :
    ((cutQueue stop (queueOf rank lists)).map Source.key).Nodup := by
  have hsources : ((lists.filterMap fun item => ofList item.1 item.2).map Source.key).Sublist
      (lists.map Prod.fst) := by
    clear hkeys
    induction lists with
    | nil => exact List.Sublist.refl _
    | cons item rest ih =>
        obtain ⟨key, entries⟩ := item
        cases entries with
        | nil => exact ih.cons key
        | cons e later => exact ih.cons_cons key
  unfold cutQueue queueOf
  rw [List.map_map]
  have hcomp : Source.key ∘ cutSource stop = (Source.key : Source κ ε → κ) := rfl
  rw [hcomp]
  refine List.Nodup.sublist (List.filter_sublist.map _) ?_
  exact ((List.perm_insertionSort _ _).map _).nodup_iff.2 (hkeys.sublist hsources)

omit hstop in
/-- The queue of lists cut short depends on these alone. -/
theorem cutQueue_congr (hinjective : ∀ e k e' k', rank e k = rank e' k' → k = k')
    {lists lists' : List (κ × List ε)} (hkeys : (lists.map Prod.fst).Nodup)
    (hkeys' : (lists'.map Prod.fst).Nodup)
    (h : ∀ key head later,
      (∃ entries, (key, entries) ∈ lists ∧ cut stop entries = head :: later) ↔
        ∃ entries, (key, entries) ∈ lists' ∧ cut stop entries = head :: later) :
    cutQueue stop (queueOf rank lists) = cutQueue stop (queueOf rank lists') := by
  have hordered : ∀ lists : List (κ × List ε),
      (cutQueue stop (queueOf rank lists)).Pairwise (Before rank) := fun lists =>
    List.pairwise_map.2 ((pairwise_queueOf lists).filter _)
  have hperm : (cutQueue stop (queueOf rank lists)).Perm (cutQueue stop (queueOf rank lists')) := by
    refine (List.perm_ext_iff_of_nodup (nodup_keys_cutQueue hkeys).of_map
      (nodup_keys_cutQueue hkeys').of_map).2 fun s => ?_
    rw [mem_cutQueue_queueOf, mem_cutQueue_queueOf]
    exact h s.key s.head s.later
  refine hperm.eq_of_pairwise ?_ (hordered lists) (hordered lists')
  intro a b ha hb hab hba
  -- Sources of the same rank have the same key, and there is one for each key.
  have hkey : a.key = b.key := hinjective _ _ _ _ (le_antisymm hab hba)
  exact List.inj_on_of_nodup_map (nodup_keys_cutQueue hkeys) ha (hperm.mem_iff.2 hb) hkey

/-- A merge that stops depends only on the lists cut short. -/
theorem merge_congr (hinjective : ∀ e k e' k', rank e k = rank e' k' → k = k')
    {lists lists' : List (κ × List ε)} (hkeys : (lists.map Prod.fst).Nodup)
    (hkeys' : (lists'.map Prod.fst).Nodup)
    (h : ∀ key head later,
      (∃ entries, (key, entries) ∈ lists ∧ cut stop entries = head :: later) ↔
        ∃ entries, (key, entries) ∈ lists' ∧ cut stop entries = head :: later) :
    merge rank stop (size (queueOf rank lists)) (queueOf rank lists) =
      merge rank stop (size (queueOf rank lists')) (queueOf rank lists') := by
  rw [merge_eq_cutQueue hstop _ (pairwise_queueOf lists),
    merge_eq_cutQueue hstop _ (pairwise_queueOf lists'),
    merge_fuel (size_cutQueue_le stop _), merge_fuel (size_cutQueue_le stop (queueOf rank lists')),
    cutQueue_congr hinjective hkeys hkeys' h]

end Cut

end Source

end Lib
end ContestManagement
