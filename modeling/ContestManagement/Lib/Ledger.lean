import Mathlib.Data.Multiset.Basic
import Mathlib.Algebra.Order.Group.Multiset
import Mathlib.Tactic

/-!
# A holder behind a queue of pending actions

A thing may be held by some holder, and a producer changes what is held only
through a first-in first-out queue of actions: put a copy in, or remove what is
there.  The producer therefore decides on what *will* be held once the actions
that are already on their way have been applied.  This module follows the copies
of one thing: which of them survive the pending actions, and what keeps their
number at one.
-/

namespace ContestManagement
namespace Lib

/-- A pending action on one thing. -/
inductive Act (α : Type*) where
  | put (copy : α)
  | remove
  deriving DecidableEq, Repr

namespace Act

variable {α : Type*}

/-- What is held after one action. -/
def apply (held : Multiset α) : Act α → Multiset α
  | .put copy => copy ::ₘ held
  | .remove => 0

/-- What is held after all pending actions. -/
def survivors (held : Multiset α) (acts : List (Act α)) : Multiset α :=
  acts.foldl apply held

/-- Every put finds nothing held, and never more than one copy is held. -/
def Exclusive : Multiset α → List (Act α) → Prop
  | held, [] => held.card ≤ 1
  | held, .put copy :: rest => held = 0 ∧ Exclusive {copy} rest
  | held, .remove :: rest => held.card ≤ 1 ∧ Exclusive 0 rest

@[simp] theorem survivors_nil (held : Multiset α) : survivors held [] = held := rfl

@[simp] theorem survivors_cons (held : Multiset α) (act : Act α) (rest : List (Act α)) :
    survivors held (act :: rest) = survivors (act.apply held) rest := rfl

theorem survivors_append (held : Multiset α) (first second : List (Act α)) :
    survivors held (first ++ second) = survivors (survivors held first) second :=
  List.foldl_append

theorem survivors_concat_remove (held : Multiset α) (acts : List (Act α)) :
    survivors held (acts ++ [.remove]) = 0 := by
  rw [survivors_append]
  rfl

theorem survivors_concat_put (held : Multiset α) (acts : List (Act α)) (copy : α) :
    survivors held (acts ++ [.put copy]) = copy ::ₘ survivors held acts := by
  rw [survivors_append]
  rfl

/-- Losing a held copy loses at most that copy later on. -/
theorem survivors_mono {held held' : Multiset α} (h : held' ≤ held) (acts : List (Act α)) :
    survivors held' acts ≤ survivors held acts := by
  induction acts generalizing held held' with
  | nil => exact h
  | cons act rest ih =>
      cases act with
      | put copy => exact ih ((Multiset.cons_le_cons_iff copy).2 h)
      | remove => exact le_refl _

theorem Exclusive.card_le {held : Multiset α} {acts : List (Act α)} (h : Exclusive held acts) :
    held.card ≤ 1 := by
  cases acts with
  | nil => exact h
  | cons act rest =>
      cases act with
      | put copy => simp [h.1]
      | remove => exact h.1

theorem Exclusive.mono {held held' : Multiset α} {acts : List (Act α)} (h : Exclusive held acts)
    (hle : held' ≤ held) : Exclusive held' acts := by
  cases acts with
  | nil => exact (Multiset.card_le_card hle).trans h
  | cons act rest =>
      cases act with
      | put copy =>
          refine ⟨?_, h.2⟩
          exact Multiset.le_zero.1 (h.1 ▸ hle)
      | remove => exact ⟨(Multiset.card_le_card hle).trans h.1, h.2⟩

/-- The action at the head of the queue is applied. -/
theorem Exclusive.apply {held : Multiset α} {act : Act α} {rest : List (Act α)}
    (h : Exclusive held (act :: rest)) : Exclusive (act.apply held) rest := by
  cases act with
  | put copy =>
      obtain ⟨hheld, hrest⟩ := h
      rw [hheld]
      exact hrest
  | remove => exact h.2

theorem Exclusive.concat_remove {held : Multiset α} {acts : List (Act α)}
    (h : Exclusive held acts) : Exclusive held (acts ++ [.remove]) := by
  induction acts generalizing held with
  | nil => exact ⟨h, by simp [Exclusive]⟩
  | cons act rest ih =>
      cases act with
      | put copy => exact ⟨h.1, ih h.2⟩
      | remove => exact ⟨h.1, ih h.2⟩

/-- A put may be appended when nothing survives the actions before it. -/
theorem Exclusive.concat_put {held : Multiset α} {acts : List (Act α)} (h : Exclusive held acts)
    (hnone : survivors held acts = 0) (copy : α) : Exclusive held (acts ++ [.put copy]) := by
  induction acts generalizing held with
  | nil => exact ⟨hnone, by simp [Exclusive]⟩
  | cons act rest ih =>
      cases act with
      | put other =>
          obtain ⟨hheld, hrest⟩ := h
          subst hheld
          exact ⟨rfl, ih hrest hnone⟩
      | remove => exact ⟨h.1, ih h.2 hnone⟩

/-- A held copy leaves room for nothing but a removal at the head of the queue. -/
theorem Exclusive.head_of_held {held : Multiset α} {acts : List (Act α)}
    (h : Exclusive held acts) (hheld : held ≠ 0) : acts = [] ∨ .remove ∈ acts := by
  cases acts with
  | nil => exact .inl rfl
  | cons act rest =>
      cases act with
      | put copy => exact absurd h.1 hheld
      | remove => exact .inr List.mem_cons_self

/-- The puts that no later removal undoes. -/
def livePuts : List (Act α) → List α
  | [] => []
  | .put copy :: rest =>
      if rest.any (fun act => match act with | .remove => true | .put _ => false) then
        livePuts rest
      else copy :: livePuts rest
  | .remove :: rest => livePuts rest

/-- Whether a removal is pending. -/
def removes (acts : List (Act α)) : Bool :=
  acts.any fun act => match act with | .remove => true | .put _ => false

/-- What survives: the held copies unless a removal is pending, and the live puts. -/
theorem survivors_eq (held : Multiset α) (acts : List (Act α)) :
    survivors held acts = (if removes acts then 0 else held) + livePuts acts := by
  induction acts generalizing held with
  | nil => simp [removes, livePuts]
  | cons act rest ih =>
      rw [survivors_cons, ih]
      cases act with
      | put copy =>
          cases hrest : removes rest with
          | true =>
              have hall : removes (.put copy :: rest) = true := by simpa [removes] using hrest
              rw [hall, livePuts]
              rw [removes] at hrest
              simp [hrest]
          | false =>
              have hall : removes (.put copy :: rest) = false := by simpa [removes] using hrest
              rw [hall, livePuts]
              rw [removes] at hrest
              simp [hrest, apply, ← Multiset.cons_coe]
      | remove => simp [removes, livePuts, apply]

theorem removes_eq_false {acts : List (Act α)} (h : .remove ∉ acts) : removes acts = false := by
  rw [removes, List.any_eq_false]
  intro act hact
  cases act with
  | put copy => simp
  | remove => exact absurd hact h

/-- Without a removal every pending action is a live put. -/
theorem livePuts_length {acts : List (Act α)} (h : .remove ∉ acts) :
    (livePuts acts).length = acts.length := by
  induction acts with
  | nil => rfl
  | cons act rest ih =>
      have hrest : .remove ∉ rest := fun hmem => h (List.mem_cons_of_mem _ hmem)
      cases act with
      | put copy =>
          have hnone := removes_eq_false hrest
          rw [removes] at hnone
          simp [livePuts, hnone, ih hrest]
      | remove => exact absurd List.mem_cons_self h

end Act

/-- The state of one thing: what is held, the actions handed over, the actions
still buffered by the producer, and the copies that left the holder and wait to
be consumed. -/
structure Ledger (α : Type*) where
  held : Multiset α
  handed : List (Act α)
  buffered : List (Act α)
  cached : Multiset α

namespace Ledger

variable {α : Type*}

/-- All pending actions, in the order they will be applied. -/
def pending (l : Ledger α) : List (Act α) := l.handed ++ l.buffered

/-- The copies that are not doomed: what survives the pending actions, and what
waits to be consumed. -/
def live (l : Ledger α) : Multiset α := Act.survivors l.held l.pending + l.cached

/-- The invariant: the pending actions keep copies apart, and one copy is live. -/
structure Single (l : Ledger α) : Prop where
  exclusive : Act.Exclusive l.held l.pending
  live_le : l.live.card ≤ 1

/-- What may happen to one thing.  Any move may lose copies on the way; only
`put` brings a new one, and the new copy satisfies `fresh`. -/
inductive Move (fresh : α → Prop) : Ledger α → Ledger α → Prop
  /-- Copies are lost. -/
  | lose {l : Ledger α} {held cached : Multiset α} (hheld : held ≤ l.held)
      (hcached : cached ≤ l.cached) : Move fresh l { l with held := held, cached := cached }
  /-- The producer buffers a put. -/
  | put {l : Ledger α} (copy : α) (hfresh : fresh copy) (hnone : l.live = 0) :
      Move fresh l { l with buffered := l.buffered ++ [.put copy] }
  /-- The producer orders a removal, and hands everything over. -/
  | cut {l : Ledger α} {held : Multiset α} (hheld : held ≤ l.held) :
      Move fresh l { l with
        held := held
        handed := l.handed ++ l.buffered ++ [.remove]
        buffered := [] }
  /-- The producer hands its buffer over. -/
  | hand {l : Ledger α} : Move fresh l { l with handed := l.handed ++ l.buffered, buffered := [] }
  /-- The first action is applied. -/
  | apply {l : Ledger α} {act : Act α} {rest : List (Act α)} {held : Multiset α}
      (hhanded : l.handed = act :: rest) (hheld : held ≤ act.apply l.held) :
      Move fresh l { l with held := held, handed := rest }
  /-- Held copies leave and wait to be consumed, when no action is pending. -/
  | answer {l : Ledger α} {held cached : Multiset α} (hpending : l.pending = [])
      (hheld : held ≤ l.held) (hle : held + cached ≤ l.held + l.cached) :
      Move fresh l { l with held := held, cached := cached }

variable {fresh : α → Prop}

/-- A move brings no live copy but the one that a put names. -/
theorem Move.live_subset {l l' : Ledger α} (h : Move fresh l l') :
    l'.live ≤ l.live ∨ ∃ copy, fresh copy ∧ l.live = 0 ∧ l'.live = {copy} := by
  cases h with
  | lose hheld hcached =>
      left
      exact add_le_add (Act.survivors_mono hheld _) hcached
  | put copy hfresh hnone =>
      right
      refine ⟨copy, hfresh, hnone, ?_⟩
      have hsurvivors : Act.survivors l.held l.pending = 0 := (add_eq_zero.1 hnone).1
      have hcached : l.cached = 0 := (add_eq_zero.1 hnone).2
      show Act.survivors l.held (l.handed ++ (l.buffered ++ [.put copy])) + l.cached = {copy}
      rw [← List.append_assoc, Act.survivors_concat_put, hcached]
      rw [pending] at hsurvivors
      simp [hsurvivors]
  | cut hheld =>
      left
      simp only [live, pending, List.append_nil, Act.survivors_concat_remove, zero_add]
      exact Multiset.le_add_left _ _
  | hand =>
      left
      simp [live, pending]
  | apply hhanded hheld =>
      left
      have hsurvivors := Act.survivors_mono hheld (l.handed.tail ++ l.buffered)
      simp only [live, pending, hhanded, List.tail_cons, List.cons_append,
        Act.survivors_cons] at hsurvivors ⊢
      exact add_le_add hsurvivors le_rfl
  | answer hpending hheld hle =>
      left
      obtain ⟨hhanded, hbuffered⟩ := List.append_eq_nil_iff.1 hpending
      simpa [live, pending, hhanded, hbuffered] using hle

/-- Every move keeps the invariant. -/
theorem Single.move {l l' : Ledger α} (h : l.Single) (hmove : Move fresh l l') : l'.Single := by
  have hlive : l'.live.card ≤ 1 := by
    rcases hmove.live_subset with hle | ⟨copy, -, -, heq⟩
    · exact (Multiset.card_le_card hle).trans h.live_le
    · simp [heq]
  refine ⟨?_, hlive⟩
  cases hmove with
  | lose hheld hcached => exact h.exclusive.mono hheld
  | put copy hfresh hnone =>
      have hsurvivors : Act.survivors l.held l.pending = 0 := (add_eq_zero.1 hnone).1
      have hput := h.exclusive.concat_put hsurvivors copy
      rwa [pending, List.append_assoc] at hput
  | cut hheld =>
      have hcut := (h.exclusive.mono hheld).concat_remove
      simpa [pending] using hcut
  | hand => simpa [pending] using h.exclusive
  | apply hhanded hheld =>
      have hhead := h.exclusive
      rw [pending, hhanded, List.cons_append] at hhead
      exact hhead.apply.mono hheld
  | answer hpending hheld hle => exact h.exclusive.mono hheld

/-- Nothing survives the actions handed over.  Every move but handing the buffer
over keeps that. -/
def Cleared (l : Ledger α) : Prop := Act.survivors l.held l.handed = 0

theorem Cleared.move {l l' : Ledger α} (h : l.Cleared) (hmove : Move fresh l l')
    (hbuffered : l'.buffered = [] → l.buffered = []) : l'.Cleared := by
  unfold Cleared at h ⊢
  cases hmove with
  | lose hheld hcached => exact Multiset.le_zero.1 (h ▸ Act.survivors_mono hheld _)
  | put copy hfresh hnone => exact h
  | cut hheld => exact Act.survivors_concat_remove _ _
  | hand =>
      have hnil : l.buffered = [] := hbuffered rfl
      simpa [hnil] using h
  | apply hhanded hheld =>
      rw [hhanded, Act.survivors_cons] at h
      exact Multiset.le_zero.1 (h ▸ Act.survivors_mono hheld _)
  | answer hpending hheld hle => exact Multiset.le_zero.1 (h ▸ Act.survivors_mono hheld _)

/-- Copies that all satisfy `P` stay so, if the fresh ones do. -/
theorem Move.live_all {l l' : Ledger α} (h : Move fresh l l') {P : α → Prop}
    (hlive : ∀ copy ∈ l.live, P copy) (hfresh : ∀ copy, fresh copy → P copy) :
    ∀ copy ∈ l'.live, P copy := by
  intro copy hcopy
  rcases h.live_subset with hle | ⟨copy', hcopy', -, heq⟩
  · exact hlive copy (Multiset.mem_of_le hle hcopy)
  · rw [heq, Multiset.mem_singleton] at hcopy
    exact hcopy ▸ hfresh copy' hcopy'

/-- An exclusive ledger with a held copy has no pending action, or a removal. -/
theorem Single.pending_of_held {l : Ledger α} (h : l.Single) (hheld : l.held ≠ 0)
    (hremove : .remove ∉ l.pending) : l.pending = [] :=
  (h.exclusive.head_of_held hheld).resolve_right hremove

end Ledger

end Lib
end ContestManagement
