import Mathlib.Data.Finset.Lattice.Lemmas
import ContestManagement.Service.Reinitialize

/-!
# Reinitializing after failures

A failed call leaves its resets in the queue and puts the remembered contests back, so that the
next call finds the same groups to reset.  It does so only while the contest that a group lost is
still away.  When the contest comes back, the next call finds nothing lost, and the scores and
tokens that the reset wiped stay marked as sent.

The invariant says that each score and token marked as sent is queued after the last reset of the
group that its contest had after the last successful call, unless a failed call has reset the
group since.  A call that sends the scores of such a contest somewhere else has found that the
group lost it, so the call has reset the group before.
-/

namespace ContestManagement
namespace Service
namespace Reinitialize

open Lib
open Regenerate (Part Key)

/-! ## The contests of the groups -/

theorem mem_contestsToSend {assigned : Dict ℕ String} {contest : ℕ} {group : String} :
    (contest, group) ∈ contestsToSend assigned ↔ assigned.get? contest = some group := by
  rw [contestsToSend, (List.perm_insertionSort _ _).mem_iff, Dict.mem_items_iff]

theorem mem_contestsOf_foldl {items : List (ℕ × String)} {mapping : Dict String (Finset ℕ)}
    {contest : ℕ} {group : String} :
    contest ∈ contestsOf (items.foldl (fun mapping item =>
        mapping.set item.2 (insert item.1 (contestsOf mapping item.2))) mapping) group ↔
      (contest, group) ∈ items ∨ contest ∈ contestsOf mapping group := by
  induction items generalizing mapping with
  | nil => simp
  | cons item rest ih =>
      rw [List.foldl_cons, ih]
      by_cases hgroup : group = item.2
      · subst hgroup
        have hset : contestsOf (mapping.set item.2 (insert item.1 (contestsOf mapping item.2)))
            item.2 = insert item.1 (contestsOf mapping item.2) := by
          rw [contestsOf, Dict.get?_set, if_pos rfl, Option.getD_some]
        rw [hset, Finset.mem_insert, List.mem_cons, Prod.ext_iff]
        simp only [and_true]
        tauto
      · have hset : contestsOf (mapping.set item.2 (insert item.1 (contestsOf mapping item.2)))
            group = contestsOf mapping group := by
          rw [contestsOf, Dict.get?_set, if_neg hgroup, contestsOf]
        rw [hset, List.mem_cons, Prod.ext_iff]
        simp only [hgroup, and_false, false_or]

/-- The computed mapping is the assignment, read from the groups. -/
theorem mem_contestsOf_compute {assigned : Dict ℕ String} {contest : ℕ} {group : String} :
    contest ∈ contestsOf (computeGroupContests assigned) group ↔
      assigned.get? contest = some group := by
  rw [computeGroupContests, mem_contestsOf_foldl, mem_contestsToSend]
  simp [contestsOf, Dict.get?_empty]

theorem mem_lostGroups {old new : Dict String (Finset ℕ)} {group : String} :
    group ∈ lostGroups old new ↔
      ∃ contest ∈ contestsOf old group, contest ∉ contestsOf new group := by
  rw [lostGroups, mem_sortedStrings, List.mem_map]
  constructor
  · rintro ⟨item, hitem, rfl⟩
    obtain ⟨hmem, hlost⟩ := List.mem_filter.1 hitem
    rw [decide_eq_true_eq, Finset.not_subset] at hlost
    have hold : contestsOf old item.1 = item.2 := by
      rw [contestsOf, Dict.mem_items_iff.1 hmem, Option.getD_some]
    rwa [hold]
  · rintro ⟨contest, hold, hnew⟩
    cases hget : old.get? group with
    | none => simp [contestsOf, hget] at hold
    | some contests =>
        rw [contestsOf, hget, Option.getD_some] at hold
        refine ⟨(group, contests), List.mem_filter.2 ⟨Dict.mem_items_iff.2 hget, ?_⟩, rfl⟩
        rw [decide_eq_true_eq, Finset.not_subset]
        exact ⟨contest, hold, hnew⟩

theorem mem_foldl_gained {items : List (String × Finset ℕ)} {old : Dict String (Finset ℕ)}
    {gained : Finset ℕ} {contest : ℕ} :
    contest ∈ items.foldl (fun gained item => gained ∪ (item.2 \ contestsOf old item.1)) gained ↔
      contest ∈ gained ∨ ∃ item ∈ items, contest ∈ item.2 ∧ contest ∉ contestsOf old item.1 := by
  induction items generalizing gained with
  | nil => simp
  | cons item rest ih =>
      rw [List.foldl_cons, ih, Finset.mem_union, Finset.mem_sdiff]
      simp only [List.mem_cons, exists_eq_or_imp]
      exact or_assoc

theorem mem_gainedContests {old new : Dict String (Finset ℕ)} {contest : ℕ} :
    contest ∈ gainedContests old new ↔
      ∃ group, contest ∈ contestsOf new group ∧ contest ∉ contestsOf old group := by
  rw [gainedContests, mem_foldl_gained]
  constructor
  · rintro (hempty | ⟨item, hitem, hnew, hold⟩)
    · exact absurd hempty (Finset.notMem_empty _)
    · refine ⟨item.1, ?_, hold⟩
      rwa [contestsOf, Dict.mem_items_iff.1 hitem, Option.getD_some]
  · rintro ⟨group, hnew, hold⟩
    cases hget : new.get? group with
    | none => simp [contestsOf, hget] at hnew
    | some contests =>
        rw [contestsOf, hget, Option.getD_some] at hnew
        exact Or.inr ⟨(group, contests), Dict.mem_items_iff.2 hget, hnew, hold⟩

/-! ## What a group gets after its last reset -/

theorem sinceReset_append {queue new : List (String × Item)} {group : String}
    (h : (group, Item.reset) ∉ new) :
    sinceReset (queue ++ new) group =
      sinceReset queue group ++ (new.filter fun entry => entry.1 = group).map Prod.snd := by
  rw [sinceReset, List.filter_append, List.map_append]
  refine sinceLast_append _ fun item hitem => ?_
  obtain ⟨entry, hentry, rfl⟩ := List.mem_map.1 hitem
  obtain ⟨hmem, hgroup⟩ := List.mem_filter.1 hentry
  rw [decide_eq_true_eq] at hgroup
  rw [decide_eq_false_iff_not]
  intro hreset
  apply h
  rw [← hgroup, ← hreset]
  exact hmem

theorem mem_sinceReset_of_old {queue new : List (String × Item)} {group : String} {item : Item}
    (h : (group, Item.reset) ∉ new) (hold : item ∈ sinceReset queue group) :
    item ∈ sinceReset (queue ++ new) group := by
  rw [sinceReset_append h]
  exact List.mem_append_left _ hold

theorem mem_sinceReset_of_new {queue new : List (String × Item)} {group : String} {item : Item}
    (h : (group, Item.reset) ∉ new) (hnew : (group, item) ∈ new) :
    item ∈ sinceReset (queue ++ new) group := by
  rw [sinceReset_append h]
  refine List.mem_append_right _ (List.mem_map.2 ⟨(group, item), ?_, rfl⟩)
  exact List.mem_filter.2 ⟨hnew, decide_eq_true rfl⟩

/-! ## The parts of a call -/

namespace Proxy

theorem foldl_queueContest (s : Proxy) (items : List (ℕ × String)) :
    items.foldl queueContest s = { s with
      queue := s.queue ++ items.map fun item => (item.2, .contestData item.1)
      broken := s.broken \ (items.map Prod.fst).toFinset } := by
  induction items generalizing s with
  | nil => simp
  | cons item rest ih =>
      rw [List.foldl_cons, ih]
      simp only [queueContest, List.map_cons, List.toFinset_cons, List.append_assoc,
        List.singleton_append, Finset.erase_eq, sdiff_sdiff, Finset.sup_eq_union]
      rfl

/-- The operations of what is sent: nothing is sent of a contest that is held back. -/
def entriesOf (broken : Finset ℕ) (operations : List (ℕ × String × Key)) : List (String × Item) :=
  (operations.filter fun op => op.1 ∉ broken).flatMap fun op =>
    [(op.2.1, .submission op.2.2.submission), (op.2.1, .subchange op.2.2)]

theorem sendAll_eq (s : Proxy) (operations : List (ℕ × String × Key)) :
    s.sendAll operations = { s with
      sent := s.sent ∪
        ((operations.filter fun op => op.1 ∉ s.broken).map fun op => op.2.2).toFinset
      queue := s.queue ++ entriesOf s.broken operations } := by
  unfold sendAll
  induction operations generalizing s with
  | nil => simp [entriesOf]
  | cons op rest ih =>
      rw [List.foldl_cons, ih, send]
      by_cases hbroken : op.1 ∈ s.broken
      · rw [if_pos hbroken]
        simp [entriesOf, hbroken]
      · rw [if_neg hbroken]
        simp [entriesOf, hbroken, Finset.insert_union, Finset.union_insert]

theorem initialized_eq (s : Proxy) :
    s.initialized = { s with
      queue := s.queue ++ s.lost.map (fun group => (group, .reset)) ++
        (contestsToSend s.assigned).map fun item => (item.2, .contestData item.1)
      broken := s.broken \ ((contestsToSend s.assigned).map Prod.fst).toFinset } := by
  rw [initialized, foldl_queueContest, queueResets]

/-! ## The invariant -/

/-- What is marked as sent is queued after the last reset of the group that its contest had after
the last successful call, unless a failed call has reset the group since then. -/
structure Kept (s : Proxy) : Prop where
  remembered : s.groupContests = computeGroupContests s.settled
  mark : s.mark ≤ s.queue.length
  known : ∀ key ∈ s.sent, key ∈ s.known
  queued : ∀ key ∈ s.sent, ∀ group, s.settled.get? (s.contestOf key.submission) = some group →
    .subchange key ∈ sinceReset s.queue group ∨ s.ResetSince group

theorem Fresh.kept {s : Proxy} (h : s.Fresh) : s.Kept where
  remembered := h.settled ▸ h.remembered
  mark := h.mark.le
  known := h.known
  queued key hkey group hgroup := Or.inl (h.queued key hkey group (h.settled ▸ hgroup))

theorem Kept.mem_lost {s : Proxy} (h : s.Kept) {group : String} :
    group ∈ s.lost ↔ ∃ contest, s.settled.get? contest = some group ∧
      s.assigned.get? contest ≠ some group := by
  rw [lost, h.remembered, mem_lostGroups]
  simp only [mem_contestsOf_compute, ne_eq]

theorem Kept.mem_gained {s : Proxy} (h : s.Kept) {contest : ℕ} :
    contest ∈ s.gained ↔ ∃ group, s.assigned.get? contest = some group ∧
      s.settled.get? contest ≠ some group := by
  rw [gained, h.remembered, mem_gainedContests]
  simp only [mem_contestsOf_compute, ne_eq]

theorem mem_operations {s : Proxy} {contest : ℕ} {group : String} {key : Key} :
    (contest, group, key) ∈ s.operations ↔
      s.assigned.get? contest = some group ∧
        (group ∈ s.lost ∨ contest ∈ s.gained ∨ contest ∈ s.broken) ∧
        key ∈ s.known ∧ s.contestOf key.submission = contest := by
  have hfixed : s.assigned.get? contest = some group →
      (contest ∈ s.broken \ s.initialized.broken ↔ contest ∈ s.broken) := by
    intro hassigned
    rw [initialized_eq, Finset.mem_sdiff, Finset.mem_sdiff, List.mem_toFinset, List.mem_map]
    have hsent : ∃ item ∈ contestsToSend s.assigned, item.1 = contest :=
      ⟨(contest, group), mem_contestsToSend.2 hassigned, rfl⟩
    simp only [hsent, not_true_eq_false, and_false, not_false_eq_true, and_true]
  rw [operations, toSend, List.mem_flatMap]
  constructor
  · rintro ⟨⟨contest', group'⟩, hitem, hop⟩
    obtain ⟨key', hkey', heq⟩ := List.mem_map.1 hop
    obtain ⟨rfl, rfl, rfl⟩ : contest' = contest ∧ group' = group ∧ key' = key := by
      simpa using heq
    obtain ⟨hmem, hselected⟩ := List.mem_filter.1 hitem
    obtain ⟨hknown, hcontest⟩ := List.mem_filter.1 hkey'
    rw [initialized_eq] at hmem hknown hcontest
    have hassigned := mem_contestsToSend.1 hmem
    refine ⟨hassigned, ?_, hknown, by simpa using hcontest⟩
    rw [Bool.or_eq_true, decide_eq_true_eq, decide_eq_true_eq, Finset.mem_union,
      hfixed hassigned] at hselected
    exact hselected
  · rintro ⟨hassigned, hselected, hknown, hcontest⟩
    refine ⟨(contest, group), List.mem_filter.2 ⟨?_, ?_⟩, List.mem_map.2 ⟨key, ?_, rfl⟩⟩
    · rw [initialized_eq]
      exact mem_contestsToSend.2 hassigned
    · rw [Bool.or_eq_true, decide_eq_true_eq, decide_eq_true_eq, Finset.mem_union,
        hfixed hassigned]
      exact hselected
    · rw [initialized_eq]
      exact List.mem_filter.2 ⟨hknown, decide_eq_true hcontest⟩

theorem mem_entriesOf {broken : Finset ℕ} {operations : List (ℕ × String × Key)} {group : String}
    {key : Key} :
    (group, .subchange key) ∈ entriesOf broken operations ↔
      ∃ contest, contest ∉ broken ∧ (contest, group, key) ∈ operations := by
  rw [entriesOf, List.mem_flatMap]
  constructor
  · rintro ⟨⟨contest, group', key'⟩, hop, hentry⟩
    obtain ⟨hmem, hbroken⟩ := List.mem_filter.1 hop
    obtain ⟨rfl, rfl⟩ : group = group' ∧ key = key' := by simpa using hentry
    exact ⟨contest, of_decide_eq_true hbroken, hmem⟩
  · rintro ⟨contest, hbroken, hmem⟩
    exact ⟨_, List.mem_filter.2 ⟨hmem, decide_eq_true hbroken⟩, by simp⟩

theorem reset_notMem_entriesOf {broken : Finset ℕ} {operations : List (ℕ × String × Key)}
    {group : String} : (group, .reset) ∉ entriesOf broken operations := by
  rw [entriesOf, List.mem_flatMap]
  rintro ⟨op, -, hentry⟩
  simp at hentry

theorem reset_notMem_contestData {items : List (ℕ × String)} {group : String} :
    (group, .reset) ∉ items.map fun item => (item.2, Item.contestData item.1) := by
  simp

/-- A call that fails keeps the invariant, when what it marks as sent is queued, or the group
that should have it is reset. -/
theorem Kept.append {s t : Proxy} (h : s.Kept) {new : List (String × Item)}
    (hqueue : t.queue = s.queue ++ new) (hsettled : t.settled = s.settled)
    (hmark : t.mark = s.mark) (hremembered : t.groupContests = s.groupContests)
    (hknown : t.known = s.known) (hcontest : t.contestOf = s.contestOf)
    (hsent : ∀ key ∈ t.sent, key ∈ s.sent ∨ key ∈ s.known ∧ ∀ group,
      s.settled.get? (s.contestOf key.submission) = some group →
        (group, .reset) ∉ new → .subchange key ∈ sinceReset t.queue group) : t.Kept where
  remembered := by rw [hremembered, hsettled, h.remembered]
  mark := by
    have hle := h.mark
    rw [hqueue, hmark, List.length_append]
    omega
  known key hkey := by
    rw [hknown]
    rcases hsent key hkey with hold | ⟨hnew, -⟩
    · exact h.known key hold
    · exact hnew
  queued key hkey group hgroup := by
    rw [hsettled, hcontest] at hgroup
    by_cases hreset : (group, Item.reset) ∈ new
    · right
      rw [ResetSince, hqueue, hmark, List.drop_append_of_le_length h.mark]
      exact List.mem_append_right _ hreset
    · rcases hsent key hkey with hold | ⟨-, hnew⟩
      · rcases h.queued key hold group hgroup with hqueued | hsince
        · left
          rw [hqueue]
          exact mem_sinceReset_of_old hreset hqueued
        · right
          rw [ResetSince, hqueue, hmark, List.drop_append_of_le_length h.mark]
          exact List.mem_append_left _ hsince
      · exact Or.inl (hnew group hgroup hreset)

/-! ## The calls -/

/-- What a call has queued once it has sent some of its operations. -/
theorem queue_sendAll (s : Proxy) (operations : List (ℕ × String × Key)) :
    (s.initialized.sendAll operations).queue =
      (s.queue ++ s.lost.map fun group => (group, .reset)) ++
        ((contestsToSend s.assigned).map (fun item => (item.2, .contestData item.1)) ++
          entriesOf s.initialized.broken operations) := by
  rw [sendAll_eq]
  show s.initialized.queue ++ _ = _
  rw [initialized_eq]
  simp only [List.append_assoc]

theorem reset_notMem_after {s : Proxy} {operations : List (ℕ × String × Key)} {group : String} :
    (group, Item.reset) ∉
      (contestsToSend s.assigned).map (fun item => (item.2, Item.contestData item.1)) ++
        entriesOf s.initialized.broken operations := by
  rw [List.mem_append, not_or]
  exact ⟨reset_notMem_contestData, reset_notMem_entriesOf⟩

/-- What is sent is queued after the resets of the call. -/
theorem subchange_mem_sendAll {s : Proxy} {operations : List (ℕ × String × Key)} {contest : ℕ}
    {group : String} {key : Key} (hop : (contest, group, key) ∈ operations)
    (hbroken : contest ∉ s.initialized.broken) :
    .subchange key ∈ sinceReset (s.initialized.sendAll operations).queue group := by
  rw [queue_sendAll]
  refine mem_sinceReset_of_new reset_notMem_after (List.mem_append_right _ ?_)
  exact mem_entriesOf.2 ⟨contest, hbroken, hop⟩

theorem sent_sendAll {s : Proxy} {operations : List (ℕ × String × Key)} {key : Key}
    (h : key ∈ (s.initialized.sendAll operations).sent) :
    key ∈ s.sent ∨ ∃ contest group, contest ∉ s.initialized.broken ∧
      (contest, group, key) ∈ operations := by
  rw [sendAll_eq] at h
  rcases Finset.mem_union.1 h with hold | hnew
  · left
    rw [initialized_eq] at hold
    exact hold
  · obtain ⟨op, hop, rfl⟩ := List.mem_map.1 (List.mem_toFinset.1 hnew)
    obtain ⟨hmem, hbroken⟩ := List.mem_filter.1 hop
    exact Or.inr ⟨op.1, op.2.1, of_decide_eq_true hbroken, hmem⟩

/-- A call that fails while it sends has reset the groups that have lost what it sends. -/
theorem Kept.sending {s : Proxy} (h : s.Kept) {operations : List (ℕ × String × Key)}
    (hops : ∀ op ∈ operations, op ∈ s.operations) : (s.initialized.sendAll operations).Kept := by
  refine h.append (by rw [queue_sendAll, List.append_assoc]) ?_ ?_ ?_ ?_ ?_ ?_
  · rw [sendAll_eq, initialized_eq]
  · rw [sendAll_eq, initialized_eq]
  · rw [sendAll_eq, initialized_eq]
  · rw [sendAll_eq, initialized_eq]
  · rw [sendAll_eq, initialized_eq]
  · intro key hkey
    rcases sent_sendAll hkey with hold | ⟨contest, group, hbroken, hop⟩
    · exact Or.inl hold
    · obtain ⟨hassigned, -, hknown, rfl⟩ := mem_operations.1 (hops _ hop)
      refine Or.inr ⟨hknown, fun group' hsettled hreset => ?_⟩
      by_cases hgroup : group' = group
      · subst hgroup
        exact subchange_mem_sendAll hop hbroken
      · have hlost : group' ∈ s.lost := by
          refine h.mem_lost.2 ⟨_, hsettled, ?_⟩
          rw [hassigned]
          exact fun heq => hgroup (Option.some.inj heq).symm
        refine absurd (List.mem_append_left _ ?_) hreset
        exact List.mem_map.2 ⟨group', hlost, rfl⟩

theorem Kept.fails {s : Proxy} (h : s.Kept) (fault : Fault) : (s.reinitializeSync (some fault)).Kept := by
  cases fault with
  | reading => exact h
  | resetting resets => exact h.append rfl rfl rfl rfl rfl rfl fun key hkey => Or.inl hkey
  | contests => exact h.append rfl rfl rfl rfl rfl rfl fun key hkey => Or.inl hkey
  | contestData contests =>
      simp only [reinitializeSync, foldl_queueContest, queueResets]
      refine h.append (List.append_assoc _ _ _) rfl rfl rfl rfl rfl fun key hkey => Or.inl hkey
  | sending operations => exact h.sending fun op hop => List.mem_of_mem_take hop

/-- A successful call sends the contests of the groups that it resets and of those that a failed
call has reset. -/
theorem Kept.converged {s : Proxy} (h : s.Kept) (hrefills : RefillsResets s) :
    Converged s (s.reinitializeSync none) := by
  have hassigned : (s.reinitializeSync none).assigned = s.assigned := by
    simp only [reinitializeSync, sendAll_eq, initialized_eq]
  have hknown : (s.reinitializeSync none).known = s.known := by
    simp only [reinitializeSync, sendAll_eq, initialized_eq]
  have hcontest : (s.reinitializeSync none).contestOf = s.contestOf := by
    simp only [reinitializeSync, sendAll_eq, initialized_eq]
  have hqueue : (s.reinitializeSync none).queue = (s.initialized.sendAll s.operations).queue := rfl
  have hsent : (s.reinitializeSync none).sent = (s.initialized.sendAll s.operations).sent := rfl
  refine ⟨?_, ?_, ?_⟩
  · intro contest group hsettled hmoved
    rw [hassigned] at hmoved
    have hlost : group ∈ s.lost := h.mem_lost.2 ⟨contest, hsettled, hmoved⟩
    rw [hqueue, queue_sendAll, List.append_assoc, List.drop_append_of_le_length h.mark]
    refine List.mem_append_right _ (List.mem_append_left _ ?_)
    exact List.mem_map.2 ⟨group, hlost, rfl⟩
  · intro contest group hgroup
    rw [hassigned] at hgroup
    rw [hqueue, queue_sendAll]
    refine mem_sinceReset_of_new reset_notMem_after (List.mem_append_left _ ?_)
    exact List.mem_map.2 ⟨(contest, group), mem_contestsToSend.2 hgroup, rfl⟩
  · intro key hkey group hgroup
    rw [hknown] at hkey
    rw [hassigned, hcontest] at hgroup
    rw [hqueue, hsent]
    have hfixed : s.contestOf key.submission ∉ s.initialized.broken := by
      rw [initialized_eq, Finset.mem_sdiff, not_and_not_right, List.mem_toFinset]
      exact fun _ => List.mem_map.2 ⟨(_, group), mem_contestsToSend.2 hgroup, rfl⟩
    by_cases hselected : group ∈ s.lost ∨ s.contestOf key.submission ∈ s.gained ∨
        s.contestOf key.submission ∈ s.broken
    · exact Or.inr (subchange_mem_sendAll (mem_operations.2 ⟨hgroup, hselected, hkey, rfl⟩) hfixed)
    · rw [← imp_iff_not_or]
      intro hmarked
      have hold : key ∈ s.sent := by
        rcases sent_sendAll hmarked with hold | ⟨contest, group', -, hop⟩
        · exact hold
        · -- What the call sends is of a contest that it selects.
          obtain ⟨hgroup', hselected', -, rfl⟩ := mem_operations.1 hop
          rw [hgroup, Option.some.injEq] at hgroup'
          exact absurd (hgroup' ▸ hselected') hselected
      rw [not_or, not_or] at hselected
      obtain ⟨hlost, hgained, hbroken⟩ := hselected
      have hsettled : s.settled.get? (s.contestOf key.submission) = some group := by
        by_contra hnew
        exact hgained (h.mem_gained.2 ⟨group, hgroup, hnew⟩)
      rcases h.queued key hold group hsettled with hqueued | hreset
      · rw [queue_sendAll]
        refine mem_sinceReset_of_old reset_notMem_after (mem_sinceReset_of_old ?_ hqueued)
        rw [List.mem_map]
        rintro ⟨group', hlost', heq⟩
        rw [Prod.mk.injEq] at heq
        exact hlost (heq.1 ▸ hlost')
      · exfalso
        rcases hrefills _ hreset rfl (_, group) (Dict.mem_items_iff.2 hgroup) rfl with
          ⟨other, hother, rfl, haway⟩ | hnew | hheld
        · exact hlost (h.mem_lost.2 ⟨other.1, Dict.mem_items_iff.1 hother, haway⟩)
        · exact hnew hsettled
        · exact hbroken hheld

theorem Kept.succeeds {s : Proxy} (h : s.Kept) (hrefills : RefillsResets s) :
    (s.reinitializeSync none).Kept := by
  have hsent : ∀ key ∈ (s.reinitializeSync none).sent, key ∈ (s.reinitializeSync none).known :=
    (h.sending fun _ hop => hop).known
  refine ⟨rfl, le_refl _, hsent, fun key hkey group hgroup => ?_⟩
  have hassigned : (s.reinitializeSync none).settled = (s.reinitializeSync none).assigned := by
    simp only [reinitializeSync, sendAll_eq, initialized_eq]
  rw [hassigned] at hgroup
  rcases (h.converged hrefills).submissions key (hsent key hkey) group hgroup with hnot | hqueued
  · exact absurd hkey hnot
  · exact Or.inl hqueued

theorem Kept.step {s t : Proxy} {label : Label} (h : s.Kept) (hcareful : Careful s label)
    (hstep : s.step label = some t) : t.Kept := by
  cases label with
  | assign contest group =>
      cases group with
      | some group =>
          cases hstep
          exact ⟨h.remembered, h.mark, h.known, h.queued⟩
      | none =>
          cases hstep
          exact ⟨h.remembered, h.mark, h.known, h.queued⟩
  | learn key =>
      cases hstep
      exact ⟨h.remembered, h.mark, fun other hother => List.mem_append_left _ (h.known other hother),
        h.queued⟩
  | reinitializeSync fault =>
      cases hstep
      cases fault with
      | some fault => exact h.fails fault
      | none => exact h.succeeds hcareful

end Proxy

/-! ## Runs -/

/-- A successful call converges, in every run in which no successful call passes over a contest of
a group that a failed call has reset. -/
theorem reinitialize_converges {s s' : Proxy} (h : machine.ReachableVia Careful s)
    (hcareful : Careful s (.reinitializeSync none))
    (hstep : machine.step s (.reinitializeSync none) = some s') : Converged s s' := by
  have hkept : s.Kept := h.invariant (fun _ hinit => Proxy.Fresh.kept hinit)
    fun _ _ _ hs hok hmove => Proxy.Kept.step hs hok hmove
  cases hstep
  exact hkept.converged hcareful

/-! ## A contest that moves away while a call fails -/

/-- Contest 1 is in no group yet, and its submission 7 is scored. -/
def started : Proxy where
  assigned := Dict.empty
  contestOf _ := 1
  known := [⟨.score, 7⟩]
  sent := ∅
  broken := ∅
  groupContests := Dict.empty
  queue := []
  settled := Dict.empty
  mark := 0

theorem started_fresh : machine.init started where
  unbroken := rfl
  remembered := by decide +kernel
  settled := rfl
  mark := rfl
  known key hkey := absurd hkey (Finset.notMem_empty key)
  queued key hkey := absurd hkey (Finset.notMem_empty key)

/-- The contest goes to group `a` and is moved to group `b`, and then a call fails after the
resets. -/
def failedMove : List Label :=
  [.assign 1 (some "a"), .reinitializeSync none, .assign 1 (some "b"), .reinitializeSync (some .contests)]

/-- The contest is still away at the next call. -/
def stillAway : Proxy :=
  (machine.execVia Careful started failedMove).get (by decide +kernel)

/-- The contest is back at the next call. -/
def movedBack : Proxy :=
  (machine.exec started (failedMove ++ [.assign 1 (some "a")])).get (by decide +kernel)

theorem reinitialize_converges_still_away :
    (machine.ReachableVia Careful stillAway ∧ Careful stillAway (.reinitializeSync none)) ∧
      Converged stillAway (stillAway.reinitializeSync none) := by
  have hreach : machine.ReachableVia Careful stillAway :=
    ⟨started, started_fresh, Machine.path_of_execVia (Option.some_get _).symm⟩
  have hcareful : Careful stillAway (.reinitializeSync none) := by decide +kernel
  exact ⟨⟨hreach, hcareful⟩, reinitialize_converges hreach hcareful rfl⟩

theorem moved_back_not_refilled :
    ¬ ∀ s s', machine.Reachable s → machine.step s (.reinitializeSync none) = some s' →
      Converged s s' := by
  intro hall
  have hreach : machine.Reachable movedBack :=
    Machine.reachable_of_exec started_fresh (Option.some_get _).symm
  have hconverged := hall movedBack (movedBack.reinitializeSync none) hreach rfl
  rcases hconverged.submissions ⟨.score, 7⟩ (by decide +kernel) "a" (by decide +kernel) with h | h
  · revert h
    decide +kernel
  · revert h
    decide +kernel

end Reinitialize
end Service
end ContestManagement
