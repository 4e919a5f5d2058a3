import ContestManagement.Service.ProxyRounds

/-!
# The order of the operations of a proxy

The entries that an executor still has to deal with, those of the round in progress
first, are in the order in which their operations were enqueued.  What a round puts back
keeps its timestamp, so it goes back to its place before everything enqueued meanwhile.
-/

namespace ContestManagement
namespace Service

open Lib Io

variable {V : Type}

/-- Enqueued earlier, and with an earlier timestamp. -/
def Earlier (e f : ProxyEntry V) : Prop :=
  e.id < f.id ∧ e.timestamp < f.timestamp

/-- Put back: only the index in the queue has changed. -/
def PutBack (e f : ProxyEntry V) : Prop :=
  ∃ index, f = { e with index }

theorem PutBack.item {e f : ProxyEntry V} (h : PutBack e f) : f.item = e.item := by
  obtain ⟨index, rfl⟩ := h
  rfl

theorem PutBack.priority {e f : ProxyEntry V} (h : PutBack e f) : f.priority = e.priority := by
  obtain ⟨index, rfl⟩ := h
  rfl

theorem PutBack.timestamp {e f : ProxyEntry V} (h : PutBack e f) : f.timestamp = e.timestamp := by
  obtain ⟨index, rfl⟩ := h
  rfl

theorem Earlier.putBack {e f e' f' : ProxyEntry V} (h : Earlier e f) (he : PutBack e e')
    (hf : PutBack f f') : Earlier e' f' := by
  obtain ⟨index, rfl⟩ := he
  obtain ⟨index', rfl⟩ := hf
  exact h

/-! ### Lists related element by element -/

section Related

variable {α β : Type} {R : α → β → Prop} {as : List α} {bs : List β}

theorem exists_left_of_forall₂ (h : List.Forall₂ R as bs) {b : β} (hb : b ∈ bs) :
    ∃ a ∈ as, R a b := by
  induction h with
  | nil => cases hb
  | @cons a b' as bs hab _ ih =>
      rcases List.mem_cons.1 hb with rfl | hb
      · exact ⟨a, by simp, hab⟩
      · obtain ⟨a', ha', hR⟩ := ih hb
        exact ⟨a', by simp [ha'], hR⟩

theorem exists_right_of_forall₂ (h : List.Forall₂ R as bs) {a : α} (ha : a ∈ as) :
    ∃ b ∈ bs, R a b := by
  induction h with
  | nil => cases ha
  | @cons a' b as bs hab _ ih =>
      rcases List.mem_cons.1 ha with rfl | ha
      · exact ⟨b, by simp, hab⟩
      · obtain ⟨b', hb', hR⟩ := ih ha
        exact ⟨b', by simp [hb'], hR⟩

theorem pairwise_of_forall₂ {S : α → α → Prop} {T : β → β → Prop} (h : List.Forall₂ R as bs)
    (hST : ∀ a a' b b', S a a' → R a b → R a' b' → T b b') (hsorted : as.Pairwise S) :
    bs.Pairwise T := by
  induction h with
  | nil => exact .nil
  | @cons a b as bs hab hrest ih =>
      rw [List.pairwise_cons] at hsorted ⊢
      refine ⟨fun b' hb' => ?_, ih hsorted.2⟩
      obtain ⟨a', ha', hR⟩ := exists_left_of_forall₂ hrest hb'
      exact hST a a' b b' (hsorted.1 a' ha') hab hR

end Related

/-! ### Insertion -/

section Insertion

variable {α : Type}

theorem insertEntry_append {e : QueueEntry α} {first : List (QueueEntry α)}
    (h : ∀ f ∈ first, e.before f = false) (rest : List (QueueEntry α)) :
    AsyncPriorityQueue.insertEntry e (first ++ rest) =
      first ++ AsyncPriorityQueue.insertEntry e rest := by
  induction first with
  | nil => rfl
  | cons f first ih =>
      rw [List.cons_append, AsyncPriorityQueue.insertEntry, if_neg (by simp [h f (by simp)]),
        ih fun g hg => h g (by simp [hg])]
      rfl

theorem insertEntry_before {e : QueueEntry α} {rest : List (QueueEntry α)}
    (h : ∀ f ∈ rest, e.before f = true) :
    AsyncPriorityQueue.insertEntry e rest = e :: rest := by
  cases rest with
  | nil => rfl
  | cons f rest => rw [AsyncPriorityQueue.insertEntry, if_pos (h f (by simp))]

theorem before_of_lt {e f : QueueEntry α} (hpriority : e.priority = f.priority)
    (h : e.timestamp < f.timestamp) : e.before f = true := by
  simp [QueueEntry.before, hpriority, h]

theorem not_before_of_lt {e f : QueueEntry α} (hpriority : e.priority = f.priority)
    (h : f.timestamp < e.timestamp) : e.before f = false := by
  have hle : ¬e.timestamp < f.timestamp := by omega
  have hne : e.timestamp ≠ f.timestamp := by omega
  simp [QueueEntry.before, hpriority, hle, hne]

end Insertion

/-- Entries put back go between the ones before them and the ones after them. -/
theorem putBack_spec {waiting : List (ProxyEntry V)} {q : AsyncPriorityQueue (ProxyItem V)}
    {first rest : List (ProxyEntry V)} (hq : q.entries = first ++ rest)
    (hsorted : (first ++ (waiting ++ rest)).Pairwise Earlier)
    (hpriority : ∀ e ∈ first ++ (waiting ++ rest), e.priority = priorityMedium) :
    ∃ back, List.Forall₂ PutBack waiting back ∧
      (ProxyExecutor.putBack q waiting).entries = first ++ (back ++ rest) ∧
      (ProxyExecutor.putBack q waiting).lastDefaultTimestamp = q.lastDefaultTimestamp := by
  induction waiting generalizing q first with
  | nil => exact ⟨[], .nil, hq, rfl⟩
  | cons e waiting ih =>
      have hdistinct : q.contains ProxyItem.id e.item.id = false := by
        rw [AsyncPriorityQueue.contains, List.any_eq_false, hq]
        intro f hf
        rw [decide_eq_true_eq]
        rw [List.pairwise_append, List.cons_append, List.pairwise_cons] at hsorted
        rcases List.mem_append.1 hf with hf | hf
        · exact Nat.ne_of_lt (hsorted.2.2 f hf e (by simp)).1
        · exact (Nat.ne_of_lt (hsorted.2.1.1 f (by simp [hf])).1).symm
      let placed : ProxyEntry V := { e with index := q.nextIndex }
      have hback : PutBack e placed := ⟨q.nextIndex, rfl⟩
      -- The entry goes after what comes before it and before what comes after it.
      have hplaced : (q.push ProxyItem.id e.item (some e.priority) (some e.timestamp) 0).2 =
          { q with entries := (first ++ [placed]) ++ rest, nextIndex := q.nextIndex + 1 } := by
        have hfirst : ∀ f ∈ first, placed.before f = false := by
          intro f hf
          rw [List.pairwise_append] at hsorted
          exact not_before_of_lt ((hpriority e (by simp)).trans (hpriority f (by simp [hf])).symm)
            (hsorted.2.2 f hf e (by simp)).2
        have hrest : ∀ f ∈ rest, placed.before f = true := by
          intro f hf
          rw [List.pairwise_append, List.cons_append, List.pairwise_cons] at hsorted
          exact before_of_lt ((hpriority e (by simp)).trans (hpriority f (by simp [hf])).symm)
            (hsorted.2.1.1 f (by simp [hf])).2
        have hinsert : AsyncPriorityQueue.insertEntry placed (first ++ rest) =
            first ++ [placed] ++ rest := by
          rw [insertEntry_append hfirst, insertEntry_before hrest, List.append_assoc,
            List.singleton_append]
        rw [AsyncPriorityQueue.push, if_neg (by simp [hdistinct]), hq]
        simpa [placed, stampAfter] using hinsert
      have hsorted' : ((first ++ [placed]) ++ (waiting ++ rest)).Pairwise Earlier := by
        have heq : first ++ [placed] ++ (waiting ++ rest) = first ++ placed :: (waiting ++ rest) := by
          rw [List.append_assoc, List.singleton_append]
        rw [heq]
        rw [List.cons_append, List.pairwise_append, List.pairwise_cons] at hsorted
        rw [List.pairwise_append, List.pairwise_cons]
        refine ⟨hsorted.1, ⟨hsorted.2.1.1, hsorted.2.1.2⟩, ?_⟩
        intro f hf f' hf'
        rcases List.mem_cons.1 hf' with rfl | hf'
        · exact hsorted.2.2 f hf e (by simp)
        · exact hsorted.2.2 f hf f' (by simp [hf'])
      have hpriority' : ∀ f ∈ (first ++ [placed]) ++ (waiting ++ rest),
          f.priority = priorityMedium := by
        intro f hf
        rw [List.append_assoc, List.singleton_append, List.mem_append, List.mem_cons] at hf
        rcases hf with hf | rfl | hf
        · exact hpriority f (by simp [hf])
        · exact hpriority e (by simp)
        · exact hpriority f (by simp at hf ⊢; tauto)
      obtain ⟨back, hkept, hentries, hlast⟩ := ih
        (q := (q.push ProxyItem.id e.item (some e.priority) (some e.timestamp) 0).2)
        (by rw [hplaced]) hsorted' hpriority'
      refine ⟨placed :: back, .cons hback hkept, ?_, ?_⟩
      · rw [ProxyExecutor.putBack, List.foldl_cons]
        rw [ProxyExecutor.putBack] at hentries
        rw [hentries, List.append_assoc, List.singleton_append, List.cons_append]
      · rw [ProxyExecutor.putBack, List.foldl_cons]
        rw [ProxyExecutor.putBack] at hlast
        rw [hlast, hplaced]

/-! ### The invariant -/

namespace ProxyExecutor

/-- The entries of the round in progress. -/
def inRound (ex : ProxyExecutor V) : List (ProxyEntry V) :=
  ex.round.elim [] ProxyRound.entries

/-- The entries that are not dealt with yet. -/
def live (ex : ProxyExecutor V) : List (ProxyEntry V) :=
  ex.inRound ++ ex.queue.entries

/-- The live entries are in the order of their operations. -/
structure InOrder (ex : ProxyExecutor V) : Prop where
  sorted : ex.live.Pairwise Earlier
  priority : ∀ e ∈ ex.live, e.priority = priorityMedium
  known : ∀ e ∈ ex.live, ex.enqueued[e.id]? = some e.item.operation
  stamped : ∀ e ∈ ex.live, ∃ last, ex.queue.lastDefaultTimestamp = some last ∧ e.timestamp ≤ last

variable {ex ex' : ProxyExecutor V}

theorem InOrder.start : InOrder (start : ProxyExecutor V) :=
  ⟨.nil, by simp [live, inRound, ProxyExecutor.start, AsyncPriorityQueue.empty],
    by simp [live, inRound, ProxyExecutor.start, AsyncPriorityQueue.empty],
    by simp [live, inRound, ProxyExecutor.start, AsyncPriorityQueue.empty]⟩

theorem InOrder.id_lt (h : InOrder ex) {e : ProxyEntry V} (he : e ∈ ex.live) :
    e.id < ex.enqueued.length := by
  obtain ⟨hlt, -⟩ := List.getElem?_eq_some_iff.1 (h.known e he)
  exact hlt

/-- The entry of a new operation. -/
def newEntry (ex : ProxyExecutor V) (operation : ProxyOperation V) (now : ℤ) : ProxyEntry V :=
  ⟨⟨ex.enqueued.length, operation⟩, priorityMedium,
    stampAfter ex.queue.lastDefaultTimestamp none now, ex.queue.nextIndex⟩

theorem InOrder.earlier_newEntry (h : InOrder ex) (operation : ProxyOperation V) (now : ℤ)
    {e : ProxyEntry V} (he : e ∈ ex.live) : Earlier e (ex.newEntry operation now) := by
  refine ⟨h.id_lt he, ?_⟩
  obtain ⟨last, hlast, hle⟩ := h.stamped e he
  simp only [newEntry, stampAfter, hlast]
  omega

/-- A new operation goes to the end of the queue. -/
theorem InOrder.enqueue_queue (h : InOrder ex) (operation : ProxyOperation V) (now : ℤ) :
    (ex.enqueue operation now).queue =
      { entries := ex.queue.entries ++ [ex.newEntry operation now]
        nextIndex := ex.queue.nextIndex + 1
        lastDefaultTimestamp := some (ex.newEntry operation now).timestamp } := by
  have hlive : ∀ e ∈ ex.queue.entries, e ∈ ex.live := fun e he => List.mem_append_right _ he
  have hnew : ex.queue.contains ProxyItem.id ex.enqueued.length = false := by
    rw [AsyncPriorityQueue.contains, List.any_eq_false]
    intro e he
    rw [decide_eq_true_eq]
    exact Nat.ne_of_lt (h.id_lt (hlive e he))
  have hlast : ∀ e ∈ ex.queue.entries, (ex.newEntry operation now).before e = false := by
    intro e he
    exact not_before_of_lt (h.priority e (hlive e he)).symm
      (h.earlier_newEntry operation now (hlive e he)).2
  have hinsert := insertEntry_append hlast []
  rw [List.append_nil] at hinsert
  simp only [enqueue, AsyncPriorityQueue.push, hnew]
  simpa [newEntry, AsyncPriorityQueue.insertEntry] using hinsert

theorem InOrder.live_enqueue (h : InOrder ex) (operation : ProxyOperation V) (now : ℤ) :
    (ex.enqueue operation now).live = ex.live ++ [ex.newEntry operation now] := by
  rw [live, h.enqueue_queue, live, List.append_assoc]
  rfl

theorem InOrder.enqueue (h : InOrder ex) (operation : ProxyOperation V) (now : ℤ) :
    InOrder (ex.enqueue operation now) := by
  constructor
  · rw [h.live_enqueue, List.pairwise_append]
    refine ⟨h.sorted, List.pairwise_singleton _ _, ?_⟩
    intro e he f hf
    rw [List.mem_singleton.1 hf]
    exact h.earlier_newEntry operation now he
  · intro e he
    rw [h.live_enqueue, List.mem_append, List.mem_singleton] at he
    rcases he with he | rfl
    · exact h.priority e he
    · rfl
  · intro e he
    rw [h.live_enqueue, List.mem_append, List.mem_singleton] at he
    rcases he with he | rfl
    · rw [ProxyExecutor.enqueue, List.getElem?_append_left (h.id_lt he)]
      exact h.known e he
    · simp [ProxyExecutor.enqueue, newEntry, ProxyEntry.id]
  · intro e he
    rw [h.live_enqueue, List.mem_append, List.mem_singleton] at he
    rw [h.enqueue_queue]
    refine ⟨_, rfl, ?_⟩
    rcases he with he | rfl
    · exact le_of_lt (h.earlier_newEntry operation now he).2
    · exact le_refl _

/-- Starting a round moves the queue into it. -/
theorem startRound_spec {now : ℚ} (hstep : ex.startRound now = some ex') :
    ex.round = none ∧ ex'.round = some ⟨ex.queue.entries, now⟩ ∧
      ex'.queue = { ex.queue with entries := [] } ∧ ex'.enqueued = ex.enqueued ∧
      ex'.rejectedVisibility = ex.rejectedVisibility ∧
      ex'.trace = ex.trace ++ ex.queue.entries.map fun entry => .taken entry.item := by
  unfold startRound at hstep
  split at hstep
  case isFalse => cases hstep
  case isTrue hidle =>
    cases hstep
    exact ⟨Option.isNone_iff_eq_none.1 hidle.1, rfl, rfl, rfl, rfl, rfl⟩

theorem live_startRound {now : ℚ} (hstep : ex.startRound now = some ex') : ex'.live = ex.live := by
  obtain ⟨hround, hround', hqueue, -⟩ := startRound_spec hstep
  simp [live, inRound, hround, hround', hqueue]

theorem InOrder.startRound (h : InOrder ex) {now : ℚ} (hstep : ex.startRound now = some ex') :
    InOrder ex' := by
  have hlive := live_startRound hstep
  obtain ⟨-, -, hqueue, henqueued, -⟩ := startRound_spec hstep
  refine ⟨?_, ?_, ?_, ?_⟩
  · rw [hlive]
    exact h.sorted
  · rw [hlive]
    exact h.priority
  · rw [hlive, henqueued]
    exact h.known
  · rw [hlive, hqueue]
    exact h.stamped

/-- The waits of the namespaces are all that `backOff` and `progress` change. -/
theorem enqueued_waits (ex : ProxyExecutor V) (now : ℚ) (failed progressed : List Namespace) :
    (progressed.foldl progress (failed.foldl (backOff now) ex)).enqueued = ex.enqueued := by
  refine List.foldlRecOn (motive := fun s : ProxyExecutor V => s.enqueued = ex.enqueued)
    progressed _ ?_ fun _ h _ _ => h
  exact List.foldlRecOn (motive := fun s : ProxyExecutor V => s.enqueued = ex.enqueued)
    failed _ rfl fun _ h _ _ => h

/-- The entries of a round that go back, given the responses to its requests. -/
def goBack (ex : ProxyExecutor V) (round : ProxyRound V) (responses : List Response) :
    List (ProxyEntry V) :=
  ex.waiting round (ex.sendReady round responses).unsent

theorem finishRound_spec {responses : List Response} {now : ℚ}
    (hstep : ex.finishRound responses now = some ex') :
    ∃ round, ex.round = some round ∧ ex'.round = none ∧ ex'.enqueued = ex.enqueued ∧
      ex'.queue = putBack ex.queue (ex.goBack round responses) ∧
      ex'.rejectedVisibility = (ex.sendReady round responses).wire.rejectedVisibility ∧
      ex'.trace = ex.trace ++ (ex.sendReady round responses).wire.requests.map .requested := by
  rw [finishRound, Option.map_eq_some_iff] at hstep
  obtain ⟨round, hround, rfl⟩ := hstep
  exact ⟨round, hround, rfl, enqueued_waits ex now _ _, rfl, rfl, rfl⟩

theorem goBack_sublist (ex : ProxyExecutor V) (round : ProxyRound V) (responses : List Response) :
    (ex.goBack round responses).Sublist round.entries :=
  List.filter_sublist

theorem live_of_round {round : ProxyRound V} (hround : ex.round = some round) :
    ex.live = round.entries ++ ex.queue.entries := by
  simp [live, inRound, hround]

/-- What goes back comes before what was enqueued meanwhile. -/
theorem InOrder.live_finishRound (h : InOrder ex) {responses : List Response} {now : ℚ}
    (hstep : ex.finishRound responses now = some ex') :
    ∃ round back, ex.round = some round ∧
      List.Forall₂ PutBack (ex.goBack round responses) back ∧
      ex'.live = back ++ ex.queue.entries ∧
      ex'.queue.lastDefaultTimestamp = ex.queue.lastDefaultTimestamp := by
  obtain ⟨round, hround, hround', -, hqueue, -⟩ := finishRound_spec hstep
  have hlive := live_of_round hround
  have hsub := (ex.goBack_sublist round responses).append_right ex.queue.entries
  rw [← hlive] at hsub
  have hempty : ex.queue.entries = [] ++ ex.queue.entries := rfl
  obtain ⟨back, hback, hentries, hlast⟩ := putBack_spec hempty (h.sorted.sublist hsub)
    fun e he => h.priority e (hsub.subset he)
  refine ⟨round, back, hround, hback, ?_, ?_⟩
  · simp only [live, inRound, hround', hqueue, hentries]
    rfl
  · rw [hqueue, hlast]

/-- What is live after a round went back or was enqueued meanwhile. -/
theorem InOrder.mem_live_finishRound (h : InOrder ex) {responses : List Response} {now : ℚ}
    (hstep : ex.finishRound responses now = some ex') {round : ProxyRound V}
    (hround : ex.round = some round) {f : ProxyEntry V} (hf : f ∈ ex'.live) :
    (∃ e ∈ ex.goBack round responses, PutBack e f) ∨ f ∈ ex.queue.entries := by
  obtain ⟨round', back, hround', hback, hlive, -⟩ := h.live_finishRound hstep
  obtain rfl : round' = round := Option.some.inj (hround'.symm.trans hround)
  rw [hlive, List.mem_append] at hf
  exact hf.imp_left (exists_left_of_forall₂ hback)

theorem InOrder.live_of_goBack (h : InOrder ex) {responses : List Response} {now : ℚ}
    (hstep : ex.finishRound responses now = some ex') {round : ProxyRound V}
    (hround : ex.round = some round) {e : ProxyEntry V} (he : e ∈ ex.goBack round responses) :
    ∃ f ∈ ex'.live, PutBack e f := by
  obtain ⟨round', back, hround', hback, hlive, -⟩ := h.live_finishRound hstep
  obtain rfl : round' = round := Option.some.inj (hround'.symm.trans hround)
  obtain ⟨f, hf, hef⟩ := exists_right_of_forall₂ hback he
  refine ⟨f, ?_, hef⟩
  rw [hlive]
  exact List.mem_append_left _ hf

theorem InOrder.live_of_queue (h : InOrder ex) {responses : List Response} {now : ℚ}
    (hstep : ex.finishRound responses now = some ex') {e : ProxyEntry V}
    (he : e ∈ ex.queue.entries) : e ∈ ex'.live := by
  obtain ⟨round, back, -, -, hlive, -⟩ := h.live_finishRound hstep
  rw [hlive]
  exact List.mem_append_right _ he

theorem mem_goBack {round : ProxyRound V} {responses : List Response} {e : ProxyEntry V} :
    e ∈ ex.goBack round responses ↔ e ∈ round.entries ∧
      (e.id ∈ (ex.sendReady round responses).unsent ∨ ex.isDue e.group round.started = false) := by
  simp [goBack, waiting]

theorem mem_ready {round : ProxyRound V} {e : ProxyEntry V} :
    e ∈ ex.ready round ↔ e ∈ round.entries ∧ ex.isDue e.group round.started = true := by
  simp [ready]

theorem InOrder.ready_sorted (h : InOrder ex) {round : ProxyRound V}
    (hround : ex.round = some round) :
    (ex.ready round).Pairwise fun e f => e.id < f.id := by
  have hsorted := h.sorted
  rw [live_of_round hround, List.pairwise_append] at hsorted
  exact (hsorted.1.sublist List.filter_sublist).imp fun hearlier => hearlier.1

theorem InOrder.finishRound (h : InOrder ex) {responses : List Response} {now : ℚ}
    (hstep : ex.finishRound responses now = some ex') : InOrder ex' := by
  obtain ⟨round, back, hround, hback, hlive', hlast⟩ := h.live_finishRound hstep
  obtain ⟨-, -, -, henqueued, -⟩ := finishRound_spec hstep
  have hlive := live_of_round hround
  have hsub := (ex.goBack_sublist round responses).append_right ex.queue.entries
  rw [← hlive] at hsub
  have hsame : List.Forall₂ PutBack (ex.goBack round responses ++ ex.queue.entries) ex'.live := by
    rw [hlive']
    exact List.rel_append hback (List.forall₂_same.2 fun e _ => ⟨e.index, rfl⟩)
  have hold : ∀ f ∈ ex'.live, ∃ e ∈ ex.live, PutBack e f := by
    intro f hf
    obtain ⟨e, he, hef⟩ := exists_left_of_forall₂ hsame hf
    exact ⟨e, hsub.subset he, hef⟩
  constructor
  · exact pairwise_of_forall₂ hsame (fun _ _ _ _ hearlier he hf => hearlier.putBack he hf)
      (h.sorted.sublist hsub)
  · intro f hf
    obtain ⟨e, he, hef⟩ := hold f hf
    rw [hef.priority]
    exact h.priority e he
  · intro f hf
    obtain ⟨e, he, hef⟩ := hold f hf
    rw [henqueued, ProxyEntry.id, hef.item]
    exact h.known e he
  · intro f hf
    obtain ⟨e, he, hef⟩ := hold f hf
    rw [hlast, hef.timestamp]
    exact h.stamped e he

theorem inOrder_step {action : ProxyAction V} (h : InOrder ex)
    (hstep : (proxyMachine V).step ex action = some ex') : InOrder ex' := by
  cases action with
  | enqueue operation now =>
      cases hstep
      exact h.enqueue operation now
  | startRound now => exact h.startRound hstep
  | finishRound responses now => exact h.finishRound hstep

theorem inOrder_of_reachableVia {ok : ProxyExecutor V → ProxyAction V → Prop}
    (h : (proxyMachine V).ReachableVia ok ex) : InOrder ex := by
  refine h.invariant ?_ fun _ _ _ hex _ hstep => inOrder_step hex hstep
  rintro _ rfl
  exact .start

end ProxyExecutor

end Service
end ContestManagement
