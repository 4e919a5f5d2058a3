import ContestManagement.Lib.TimedMerge

/-!
# The order of a merge

A merge that does not stop takes each entry of its lists once, and the entries of one list in their
order.  If the lists are in the order of the ranks, so is the merge, and it is the only list with
these properties as long as entries of different lists have different ranks.
-/

namespace ContestManagement
namespace Lib
namespace Source

variable {κ ε ρ : Type} [LinearOrder ρ] (rank : ε → κ → ρ)

/-- The entries of a source, under its key. -/
def entries (s : Source κ ε) : List (κ × ε) :=
  (s.head :: s.later).map fun e => (s.key, e)

/-- The entries of all sources of a queue. -/
def allEntries (queue : List (Source κ ε)) : List (κ × ε) :=
  queue.flatMap entries

/-- The merge of all entries. -/
def mergeAll (queue : List (Source κ ε)) : List (κ × ε) :=
  merge rank (fun _ => false) (size queue) queue

/-- Tagged entries in the order of their ranks. -/
def Ranked (entries : List (κ × ε)) : Prop :=
  entries.Pairwise fun a b => rank a.2 a.1 ≤ rank b.2 b.1

theorem size_cons (s : Source κ ε) (queue : List (Source κ ε)) :
    size (s :: queue) = size (push rank (ofList s.key s.later) queue) + 1 := by
  rw [size_push]
  simp only [size, List.map_cons, List.sum_cons]
  omega

variable {rank} {queue queue' : List (Source κ ε)}

theorem mergeAll_cons (s : Source κ ε) (queue : List (Source κ ε)) :
    mergeAll rank (s :: queue) =
      (s.key, s.head) :: mergeAll rank (push rank (ofList s.key s.later) queue) := by
  unfold mergeAll
  rw [size_cons rank s queue, merge, if_neg (by simp)]

/-- A list that comes into the queue adds its entries. -/
theorem allEntries_push_perm (key : κ) (list : List ε) (queue : List (Source κ ε)) :
    (allEntries (push rank (ofList key list) queue)).Perm
      (list.map (fun e => (key, e)) ++ allEntries queue) := by
  cases list with
  | nil => exact List.Perm.refl _
  | cons e rest =>
      have hperm := (List.perm_orderedInsert (Before rank) ⟨key, e, rest⟩ queue).flatMap_right entries
      exact hperm.trans (List.Perm.of_eq (List.flatMap_cons ..))

/-- The merge takes each entry once. -/
theorem mergeAll_perm (queue : List (Source κ ε)) :
    (mergeAll rank queue).Perm (allEntries queue) := by
  induction hsize : size queue generalizing queue with
  | zero =>
      cases queue with
      | nil => exact List.Perm.refl _
      | cons s queue => simp [size] at hsize
  | succ n ih =>
      cases queue with
      | nil => exact List.Perm.refl _
      | cons s queue =>
          rw [size_cons rank s queue] at hsize
          rw [mergeAll_cons]
          refine ((ih _ (by omega)).cons _).trans ?_
          exact (allEntries_push_perm s.key s.later queue).cons _

/-- Where the ranks respect an order of the entries, a merge of lists in this order is in it. -/
theorem mergeAll_sorted {τ : Type} [Preorder τ] (weight : κ × ε → τ)
    (hweight : ∀ e k e' k', rank e k ≤ rank e' k' → weight (k, e) ≤ weight (k', e'))
    (hqueue : queue.Pairwise (Before rank))
    (hsources : ∀ s ∈ queue, (entries s).Pairwise fun a b => weight a ≤ weight b) :
    (mergeAll rank queue).Pairwise fun a b => weight a ≤ weight b := by
  induction hsize : size queue generalizing queue with
  | zero =>
      cases queue with
      | nil => exact List.Pairwise.nil
      | cons s queue => simp [size] at hsize
  | succ n ih =>
      cases queue with
      | nil => exact List.Pairwise.nil
      | cons s queue =>
          have hcons := List.pairwise_cons.1 hqueue
          rw [size_cons rank s queue] at hsize
          rw [mergeAll_cons]
          refine List.pairwise_cons.2 ⟨?_, ih (pairwise_push hcons.2 _) ?_ (by omega)⟩
          · -- The head of a source is the least of its entries, and s stands before all sources.
            intro entry hentry
            have hmem := ((mergeAll_perm _).trans (allEntries_push_perm _ _ _)).mem_iff.1 hentry
            rcases List.mem_append.1 hmem with hlater | hother
            · exact (List.pairwise_cons.1 (hsources s List.mem_cons_self)).1 entry hlater
            · obtain ⟨other, hotherMem, hentry⟩ := List.mem_flatMap.1 hother
              have hbefore := hweight _ _ _ _ (hcons.1 other hotherMem)
              have hranked := hsources other (List.mem_cons_of_mem s hotherMem)
              rcases List.mem_cons.1 hentry with heq | hrest
              · rw [heq]
                exact hbefore
              · exact hbefore.trans ((List.pairwise_cons.1 hranked).1 entry hrest)
          · intro source hsource
            unfold push at hsource
            cases hlater : s.later with
            | nil =>
                rw [hlater] at hsource
                exact hsources source (List.mem_cons_of_mem s hsource)
            | cons e rest =>
                rw [hlater] at hsource
                rcases List.mem_cons.1 ((List.perm_orderedInsert _ _ _).mem_iff.1 hsource) with
                  heq | hmem
                · have hranked := hsources s List.mem_cons_self
                  unfold entries at hranked
                  rw [hlater] at hranked
                  rw [heq]
                  exact (List.pairwise_cons.1 hranked).2
                · exact hsources source (List.mem_cons_of_mem s hmem)

/-- A merge that stops is the merge of all up to the first entry that stops. -/
theorem merge_eq_takeWhile (stop : ε → Bool) (fuel : ℕ) (queue : List (Source κ ε)) :
    merge rank stop fuel queue =
      (merge rank (fun _ => false) fuel queue).takeWhile fun entry => !stop entry.2 := by
  induction fuel generalizing queue with
  | zero => rfl
  | succ fuel ih =>
      cases queue with
      | nil => rfl
      | cons s queue =>
          rw [merge, merge, if_neg Bool.false_ne_true]
          cases hstop : stop s.head with
          | true => rw [if_pos rfl, List.takeWhile_cons_of_neg (by simp [hstop])]
          | false =>
              rw [if_neg Bool.false_ne_true, List.takeWhile_cons_of_pos (by simp [hstop]), ih]

/-! ## The queue of some lists -/

/-- The entries of lists, each under the key of its list. -/
def tagged (lists : List (κ × List ε)) : List (κ × ε) :=
  lists.flatMap fun item => item.2.map fun e => (item.1, e)

theorem allEntries_filterMap (lists : List (κ × List ε)) :
    allEntries (lists.filterMap fun item => ofList item.1 item.2) = tagged lists := by
  induction lists with
  | nil => rfl
  | cons item rest ih =>
      obtain ⟨key, list⟩ := item
      cases list with
      | nil => exact ih
      | cons e later => exact congrArg ((e :: later).map (fun e => (key, e)) ++ ·) ih

theorem allEntries_queueOf_perm (lists : List (κ × List ε)) :
    (allEntries (queueOf rank lists)).Perm (tagged lists) := by
  rw [← allEntries_filterMap]
  exact (List.perm_insertionSort _ _).flatMap_right _

theorem nodup_keys_filterMap {lists : List (κ × List ε)} (hkeys : (lists.map Prod.fst).Nodup) :
    ((lists.filterMap fun item => ofList item.1 item.2).map Source.key).Nodup := by
  refine hkeys.sublist ?_
  clear hkeys
  induction lists with
  | nil => exact List.Sublist.refl _
  | cons item rest ih =>
      obtain ⟨key, list⟩ := item
      cases list with
      | nil => exact ih.cons key
      | cons e later => exact ih.cons_cons key

theorem mergeAll_queueOf_sorted {τ : Type} [Preorder τ] (weight : κ × ε → τ)
    (hweight : ∀ e k e' k', rank e k ≤ rank e' k' → weight (k, e) ≤ weight (k', e'))
    {lists : List (κ × List ε)}
    (h : ∀ item ∈ lists,
      (item.2.map fun e => (item.1, e)).Pairwise fun a b => weight a ≤ weight b) :
    (mergeAll rank (queueOf rank lists)).Pairwise fun a b => weight a ≤ weight b := by
  refine mergeAll_sorted weight hweight (pairwise_queueOf lists) fun s hs => ?_
  obtain ⟨item, hitem, hsome⟩ :=
    List.mem_filterMap.1 ((List.perm_insertionSort _ _).mem_iff.1 hs)
  have hranked := h item hitem
  obtain ⟨key, list⟩ := item
  cases list with
  | nil => cases hsome
  | cons e later =>
      rw [← Option.some.inj hsome]
      exact hranked

/-- A merge of lists in the order of the ranks. -/
theorem mergeAll_queueOf_ranked {lists : List (κ × List ε)}
    (h : ∀ item ∈ lists, Ranked rank (item.2.map fun e => (item.1, e))) :
    Ranked rank (mergeAll rank (queueOf rank lists)) :=
  mergeAll_queueOf_sorted (fun entry => rank entry.2 entry.1) (fun _ _ _ _ hle => hle) h

/-! ## The entries of one list -/

variable [DecidableEq κ]

/-- The entries under a key. -/
def under (key : κ) (entries : List (κ × ε)) : List (κ × ε) :=
  entries.filter fun entry => entry.1 = key

theorem under_append (key : κ) (l l' : List (κ × ε)) :
    under key (l ++ l') = under key l ++ under key l' :=
  List.filter_append ..

theorem under_entries (key : κ) (s : Source κ ε) :
    under key (entries s) = if s.key = key then entries s else [] := by
  unfold under entries
  split
  · rename_i heq
    simp [heq]
  · rename_i hne
    simp [hne]

theorem under_allEntries_cons (key : κ) (s : Source κ ε) (queue : List (Source κ ε)) :
    under key (allEntries (s :: queue)) = under key (entries s) ++ under key (allEntries queue) :=
  under_append ..

/-- Sources with different keys may stand in any order. -/
theorem under_allEntries_perm (h : queue.Perm queue') (hkeys : (queue.map Source.key).Nodup)
    (key : κ) : under key (allEntries queue) = under key (allEntries queue') := by
  induction h with
  | nil => rfl
  | cons s _ ih =>
      rw [under_allEntries_cons, under_allEntries_cons, ih (List.nodup_cons.1 hkeys).2]
  | swap a b queue =>
      have hne : b.key ≠ a.key := by
        intro heq
        simp [heq] at hkeys
      simp only [under_allEntries_cons, under_entries]
      by_cases hb : b.key = key
      · rw [if_pos hb, if_neg fun ha => hne (hb.trans ha.symm)]
        simp
      · rw [if_neg hb]
        simp
  | trans hfirst _ ihfirst ihsecond =>
      exact (ihfirst hkeys).trans (ihsecond ((hfirst.map _).nodup_iff.1 hkeys))

/-- The merge takes the entries of one list in their order. -/
theorem under_mergeAll (hkeys : (queue.map Source.key).Nodup) (key : κ) :
    under key (mergeAll rank queue) = under key (allEntries queue) := by
  induction hsize : size queue generalizing queue with
  | zero =>
      cases queue with
      | nil => rfl
      | cons s queue => simp [size] at hsize
  | succ n ih =>
      cases queue with
      | nil => rfl
      | cons s queue =>
          have hnodup := List.nodup_cons.1 hkeys
          rw [size_cons rank s queue] at hsize
          have hunder : under key (mergeAll rank (push rank (ofList s.key s.later) queue)) =
              under key (s.later.map fun e => (s.key, e)) ++ under key (allEntries queue) := by
            cases hlater : s.later with
            | nil =>
                rw [hlater] at hsize
                exact ih hnodup.2 (Nat.succ.inj hsize)
            | cons e rest =>
                rw [hlater] at hsize
                have hperm := List.perm_orderedInsert (Before rank) ⟨s.key, e, rest⟩ queue
                have hkeys' : ((queue.orderedInsert (Before rank) ⟨s.key, e, rest⟩).map
                    Source.key).Nodup := (hperm.map _).nodup_iff.2 hkeys
                refine (ih hkeys' (Nat.succ.inj hsize)).trans ?_
                rw [under_allEntries_perm hperm hkeys', under_allEntries_cons]
                rfl
          rw [mergeAll_cons, under_allEntries_cons]
          have hhead : under key ((s.key, s.head) ::
              mergeAll rank (push rank (ofList s.key s.later) queue)) =
              under key [(s.key, s.head)] ++
                under key (mergeAll rank (push rank (ofList s.key s.later) queue)) :=
            under_append key [(s.key, s.head)] _
          rw [hhead, hunder, ← List.append_assoc, ← under_append]
          rfl

/-- Ranked entries are given by those under each key. -/
theorem Ranked.eq_of_under (hinjective : ∀ e k e' k', rank e k = rank e' k' → k = k')
    {l l' : List (κ × ε)} (h : Ranked rank l) (h' : Ranked rank l')
    (hunder : ∀ key, under key l = under key l') : l = l' := by
  induction l generalizing l' with
  | nil =>
      cases l' with
      | nil => rfl
      | cons b l' =>
          have hb := hunder b.1
          simp [under] at hb
  | cons a l ih =>
      cases l' with
      | nil =>
          have ha := hunder a.1
          simp [under] at ha
      | cons b l' =>
          have hmem : a ∈ b :: l' := by
            have ha : a ∈ under a.1 (a :: l) := List.mem_filter.2 ⟨List.mem_cons_self, by simp⟩
            rw [hunder] at ha
            exact List.mem_of_mem_filter ha
          have hmem' : b ∈ a :: l := by
            have hb : b ∈ under b.1 (b :: l') := List.mem_filter.2 ⟨List.mem_cons_self, by simp⟩
            rw [← hunder] at hb
            exact List.mem_of_mem_filter hb
          have hle : rank a.2 a.1 ≤ rank b.2 b.1 := by
            rcases List.mem_cons.1 hmem' with heq | hrest
            · rw [heq]
            · exact (List.pairwise_cons.1 h).1 b hrest
          have hge : rank b.2 b.1 ≤ rank a.2 a.1 := by
            rcases List.mem_cons.1 hmem with heq | hrest
            · rw [heq]
            · exact (List.pairwise_cons.1 h').1 a hrest
          have hkey : a.1 = b.1 := hinjective _ _ _ _ (le_antisymm hle hge)
          have hheads := hunder a.1
          unfold under at hheads
          rw [List.filter_cons_of_pos (by simp), List.filter_cons_of_pos (by simp [hkey])] at hheads
          have hab : a = b := (List.cons.inj hheads).1
          rw [← hab] at hunder h' ⊢
          congr 1
          refine ih (List.pairwise_cons.1 h).2 (List.pairwise_cons.1 h').2 fun key => ?_
          have hkeyed := hunder key
          unfold under at hkeyed ⊢
          by_cases hakey : a.1 = key
          · rw [List.filter_cons_of_pos (by simp [hakey]),
              List.filter_cons_of_pos (by simp [hakey])] at hkeyed
            exact (List.cons.inj hkeyed).2
          · rw [List.filter_cons_of_neg (by simp [hakey]),
              List.filter_cons_of_neg (by simp [hakey])] at hkeyed
            exact hkeyed

theorem under_tagged_cons (key : κ) (item : κ × List ε) (lists : List (κ × List ε)) :
    under key (tagged (item :: lists)) =
      (if item.1 = key then item.2.map fun e => (item.1, e) else []) ++ under key (tagged lists) := by
  have hitem : under key (item.2.map fun e => (item.1, e)) =
      if item.1 = key then item.2.map fun e => (item.1, e) else [] := by
    unfold under
    by_cases h : item.1 = key
    · simp [h]
    · simp [h]
  rw [← hitem, ← under_append]
  rfl

theorem under_tagged_eq_nil {lists : List (κ × List ε)} {key : κ} (h : key ∉ lists.map Prod.fst) :
    under key (tagged lists) = [] := by
  induction lists with
  | nil => rfl
  | cons item rest ih =>
      rw [List.map_cons, List.mem_cons, not_or] at h
      rw [under_tagged_cons, if_neg (Ne.symm h.1), List.nil_append, ih h.2]

theorem under_tagged {lists : List (κ × List ε)} (hkeys : (lists.map Prod.fst).Nodup) {key : κ}
    {list : List ε} (h : (key, list) ∈ lists) :
    under key (tagged lists) = list.map fun e => (key, e) := by
  induction lists with
  | nil => cases h
  | cons item rest ih =>
      rw [List.map_cons, List.nodup_cons] at hkeys
      rw [under_tagged_cons]
      rcases List.mem_cons.1 h with heq | hrest
      · rw [← heq] at hkeys ⊢
        rw [if_pos rfl, under_tagged_eq_nil hkeys.1, List.append_nil]
      · have hne : item.1 ≠ key := fun heq =>
          hkeys.1 (List.mem_map.2 ⟨_, hrest, heq.symm⟩)
        rw [if_neg hne, List.nil_append, ih hkeys.2 hrest]

theorem under_mergeAll_queueOf {lists : List (κ × List ε)} (hkeys : (lists.map Prod.fst).Nodup)
    (key : κ) : under key (mergeAll rank (queueOf rank lists)) = under key (tagged lists) := by
  have hperm := List.perm_insertionSort (Before rank)
    (lists.filterMap fun item => ofList item.1 item.2)
  have hnodup := (hperm.map Source.key).nodup_iff.2 (nodup_keys_filterMap hkeys)
  rw [← allEntries_filterMap, queueOf, under_mergeAll hnodup]
  exact under_allEntries_perm hperm hnodup key

end Source
end Lib
end ContestManagement
