import ContestManagement.Service.Regenerate

/-!
# What a step of a thread does

A thread that has read the committed value of a key will hand it over, and so will one that
has still to read the key, unless it is a sweep, which may leave it out.  `Moves` says
all that a step of a thread does to such facts and to the state that the threads share; the
invariants are proved from it.
-/

namespace ContestManagement
namespace Service
namespace Regenerate

open Lib

namespace Thread

/-- What the thread has still to read. -/
def unread (t : Thread) : List Key :=
  match t.phase with
  | .next => t.jobs
  | .busy _ _ => t.jobs.tail

/-- The thread has read a value of the key. -/
def Holds (t : Thread) (key : Key) (stage : Stage) (value : Option ℚ) : Prop :=
  t.jobs.head? = some key ∧ t.phase = .busy stage value

/-- The thread is going to read the key, and not to leave it out. -/
def WillRead (t : Thread) (key : Key) : Prop :=
  t.onlyMissing = false ∧ key ∈ t.unread

/-- The thread is going to hand over the value, or to read the key again. -/
def Will (t : Thread) (key : Key) (value : ℚ) : Prop :=
  t.WillRead key ∨ ∃ stage, t.Holds key stage (some value) ∧
    (stage = .loaded → t.onlyMissing = false)

/-- The thread is going to note the key before it hands over the value. -/
def WillNote (t : Thread) (key : Key) (value : ℚ) : Prop :=
  t.WillRead key ∨ (t.Holds key .loaded (some value) ∧ t.onlyMissing = false) ∨
    t.Holds key .marking (some value) ∨ t.Holds key (.noting true) (some value)

/-- The thread has read another value of the key. -/
def Stale (t : Thread) (key : Key) (value : ℚ) : Prop :=
  ∃ stage other, t.Holds key stage other ∧ other ≠ some value

theorem WillNote.will {t : Thread} {key : Key} {value : ℚ} (h : t.WillNote key value) :
    t.Will key value := by
  rcases h with hread | ⟨hloaded, hall⟩ | hmarking | hnoting
  · exact Or.inl hread
  · exact Or.inr ⟨_, hloaded, fun _ => hall⟩
  · exact Or.inr ⟨_, hmarking, by simp⟩
  · exact Or.inr ⟨_, hnoting, by simp⟩

theorem not_holds_of_next {t : Thread} (h : t.phase = .next) {key : Key} {stage : Stage}
    {value : Option ℚ} : ¬ t.Holds key stage value := by
  rintro ⟨-, hphase⟩
  rw [h] at hphase
  cases hphase

theorem not_stale_of_next {t : Thread} (h : t.phase = .next) {key : Key} {value : ℚ} :
    ¬ t.Stale key value := by
  rintro ⟨stage, other, hholds, -⟩
  exact not_holds_of_next h hholds

theorem will_iff_of_next {t : Thread} (h : t.phase = .next) {key : Key} {value : ℚ} :
    t.Will key value ↔ t.onlyMissing = false ∧ key ∈ t.jobs := by
  have hunread : t.unread = t.jobs := by
    unfold unread
    rw [h]
  constructor
  · rintro (⟨hall, hread⟩ | ⟨stage, hholds, -⟩)
    · exact ⟨hall, hunread ▸ hread⟩
    · exact absurd hholds (not_holds_of_next h)
  · rintro ⟨hall, hmem⟩
    exact Or.inl ⟨hall, hunread.symm ▸ hmem⟩

theorem willNote_iff_of_next {t : Thread} (h : t.phase = .next) {key : Key} {value : ℚ} :
    t.WillNote key value ↔ t.onlyMissing = false ∧ key ∈ t.jobs := by
  constructor
  · intro hnote
    exact (will_iff_of_next h).1 hnote.will
  · intro hwill
    have hunread : t.unread = t.jobs := by
      unfold unread
      rw [h]
    exact Or.inl ⟨hwill.1, hunread.symm ▸ hwill.2⟩

end Thread

namespace Proxy

theorem Carried.append {s s' : Proxy} {key : Key} {value : ℚ} (h : s.Carried key value)
    {new : List Item} (hqueue : s'.queue = s.queue ++ new) (hnew : ∀ x ∈ new, x.isReset = false) :
    s'.Carried key value := by
  unfold Carried
  rw [hqueue, sinceLast_append _ hnew]
  exact List.mem_append_left _ h

end Proxy

/-- What a step of a thread does. -/
structure Moves (s : Proxy) (t : Thread) (s' : Proxy) (t' : Thread) : Prop where
  submissions : s'.submissions = s.submissions
  results : s'.results = s.results
  committed : s'.committed = s.committed
  record : s'.record = s.record
  regen : s'.regen = s.regen
  queue : ∃ new, s'.queue = s.queue ++ new ∧ ∀ x ∈ new, x.isReset = false
  noted : s.noted ⊆ s'.noted
  sent : s.sent ⊆ s'.sent
  added : ∀ key ∈ s'.sent, key ∉ s.sent →
    ∃ value, t.Holds key .adding value ∧ t'.Holds key .sending value
  will : ∀ key value, s.committed.get? key = some value → t.Will key value →
    t'.Will key value ∨ s'.Carried key value
  willNote : s.record = true → ∀ key value, s.committed.get? key = some value →
    t.WillNote key value → t'.WillNote key value ∨ key ∈ s'.noted
  stale : ∀ key value, s.committed.get? key = some value → t'.Stale key value → t.Stale key value

namespace Thread

variable {s s' : Proxy} {t t' : Thread} {first : Key} {rest : List Key}

/-- A step that changes nothing that the threads share. -/
theorem moves_of_quiet
    (will : ∀ key value, s.committed.get? key = some value → t.Will key value → t'.Will key value)
    (willNote : s.record = true → ∀ key value, s.committed.get? key = some value →
      t.WillNote key value → t'.WillNote key value)
    (stale : ∀ key value, s.committed.get? key = some value → t'.Stale key value →
      t.Stale key value) : Moves s t s t' where
  submissions := rfl
  results := rfl
  committed := rfl
  record := rfl
  regen := rfl
  queue := ⟨[], by simp, by simp⟩
  noted := Finset.Subset.refl _
  sent := Finset.Subset.refl _
  added := fun key hkey hnot => absurd hkey hnot
  will := fun key value hcommitted h => Or.inl (will key value hcommitted h)
  willNote := fun hrecord key value hcommitted h =>
    Or.inl (willNote hrecord key value hcommitted h)
  stale := stale

/-- A sweep leaves a key out. -/
theorem moves_of_skip (honly : t.onlyMissing = true)
    (hphase : t.phase = .next ∨ ∃ value, t.phase = .busy .loaded value) (hnext : t'.phase = .next) :
    Moves s t s t' := by
  have hwill : ∀ key value, ¬ t.Will key value := by
    rintro key value (⟨hall, -⟩ | ⟨stage, ⟨-, hstage⟩, hall⟩)
    · rw [honly] at hall
      cases hall
    · rcases hphase with hphase | ⟨other, hphase⟩
      · rw [hphase] at hstage
        cases hstage
      · rw [hphase] at hstage
        cases hstage
        rw [honly] at hall
        cases hall rfl
  exact moves_of_quiet (fun key value _ h => absurd h (hwill key value))
    (fun _ key value _ h => absurd h.will (hwill key value))
    (fun key value _ h => absurd h (not_stale_of_next hnext))

/-- A notification of what is not committed ends. -/
theorem moves_of_missing (hjobs : t.jobs = first :: rest) (hphase : t.phase = .next)
    (hmissing : s.committed.get? first = none) : Moves s t s t.advance := by
  have hadvance : t.advance.jobs = rest := by
    unfold advance
    rw [hjobs]
    rfl
  have hkey : ∀ key value, s.committed.get? key = some value → key ∈ t.jobs → key ∈ rest := by
    intro key value hcommitted hmem
    rw [hjobs] at hmem
    rcases List.mem_cons.1 hmem with rfl | hmem
    · rw [hmissing] at hcommitted
      cases hcommitted
    · exact hmem
  refine moves_of_quiet (fun key value hcommitted h => ?_) (fun _ key value hcommitted h => ?_)
    (fun key value _ h => absurd h (not_stale_of_next rfl))
  · obtain ⟨hall, hmem⟩ := (will_iff_of_next hphase).1 h
    exact (will_iff_of_next rfl).2 ⟨hall, hadvance ▸ hkey key value hcommitted hmem⟩
  · obtain ⟨hall, hmem⟩ := (willNote_iff_of_next hphase).1 h
    exact (willNote_iff_of_next rfl).2 ⟨hall, hadvance ▸ hkey key value hcommitted hmem⟩

/-- A thread reads what is committed. -/
theorem moves_of_read (hjobs : t.jobs = first :: rest) (hphase : t.phase = .next) :
    Moves s t s { t with phase := .busy .loaded (s.committed.get? first) } := by
  have hunread : ({ t with phase := .busy .loaded (s.committed.get? first) } : Thread).unread = rest := by
    unfold unread
    rw [hjobs]
    rfl
  have hhead : t.jobs.head? = some first := by rw [hjobs, List.head?_cons]
  have hnote : ∀ key value, s.committed.get? key = some value → t.onlyMissing = false ∧ key ∈ t.jobs →
      ({ t with phase := .busy .loaded (s.committed.get? first) } : Thread).WillNote key value := by
    rintro key value hcommitted ⟨hall, hmem⟩
    rw [hjobs] at hmem
    rcases List.mem_cons.1 hmem with rfl | hmem
    · exact Or.inr (Or.inl ⟨⟨hhead, by rw [hcommitted]⟩, hall⟩)
    · exact Or.inl ⟨hall, hunread.symm ▸ hmem⟩
  refine moves_of_quiet (fun key value hcommitted h => ?_) (fun _ key value hcommitted h => ?_)
    (fun key value hcommitted h => ?_)
  · exact (hnote key value hcommitted ((will_iff_of_next hphase).1 h)).will
  · exact hnote key value hcommitted ((willNote_iff_of_next hphase).1 h)
  · obtain ⟨stage, other, ⟨hkey, hbusy⟩, hne⟩ := h
    have hsame : key = first := by
      have heq : some first = some key := hhead.symm.trans hkey
      exact (Option.some.inj heq).symm
    cases hbusy
    rw [hsame] at hcommitted
    exact absurd hcommitted hne

section Stage

variable {stage next : Stage} {value : Option ℚ} (hphase : t.phase = .busy stage value)

include hphase

theorem stage_of_holds {key : Key} {other : Option ℚ} {held : Stage} (h : t.Holds key held other) :
    held = stage ∧ other = value := by
  obtain ⟨-, hbusy⟩ := h
  rw [hphase] at hbusy
  cases hbusy
  exact ⟨rfl, rfl⟩

/-- A thread goes on with the value that it has read. -/
theorem holds_next {key : Key} {other : Option ℚ} {held : Stage} (h : t.Holds key held other) :
    ({ t with phase := .busy next value } : Thread).Holds key next other := by
  obtain ⟨-, rfl⟩ := stage_of_holds hphase h
  exact ⟨h.1, rfl⟩

theorem willRead_next {key : Key} :
    ({ t with phase := .busy next value } : Thread).WillRead key ↔ t.WillRead key := by
  unfold WillRead unread
  rw [hphase]

theorem will_next (hnext : next ≠ .loaded) {key : Key} {v : ℚ} (h : t.Will key v) :
    ({ t with phase := .busy next value } : Thread).Will key v := by
  rcases h with hread | ⟨held, hholds, -⟩
  · exact Or.inl ((willRead_next hphase).2 hread)
  · exact Or.inr ⟨next, holds_next hphase hholds, fun h => absurd h hnext⟩

theorem stale_next {key : Key} {v : ℚ}
    (h : ({ t with phase := .busy next value } : Thread).Stale key v) : t.Stale key v := by
  obtain ⟨held, other, ⟨hhead, hbusy⟩, hne⟩ := h
  cases hbusy
  exact ⟨stage, value, ⟨hhead, hphase⟩, hne⟩

/-- Once a thread has gone past the record it notes nothing. -/
theorem willRead_of_willNote (hloaded : stage ≠ .loaded) (hmarking : stage ≠ .marking)
    (hnoting : stage ≠ .noting true) {key : Key} {v : ℚ} (h : t.WillNote key v) :
    t.WillRead key := by
  rcases h with hread | ⟨hheld, -⟩ | hheld | hheld
  · exact hread
  · exact absurd (stage_of_holds hphase hheld).1.symm hloaded
  · exact absurd (stage_of_holds hphase hheld).1.symm hmarking
  · exact absurd (stage_of_holds hphase hheld).1.symm hnoting

/-- The set of what was sent, the record or the queue grows in a step of a thread that goes on
with its value. -/
theorem moves_of_stage {s' : Proxy} (hnext : next ≠ .loaded)
    (hframe : s'.submissions = s.submissions ∧ s'.results = s.results ∧
      s'.committed = s.committed ∧ s'.record = s.record ∧ s'.regen = s.regen)
    (hqueue : ∃ new, s'.queue = s.queue ++ new ∧ ∀ x ∈ new, x.isReset = false)
    (hnoted : s.noted ⊆ s'.noted) (hsent : s.sent ⊆ s'.sent)
    (hadded : ∀ key ∈ s'.sent, key ∉ s.sent → t.jobs.head? = some key ∧ stage = .adding ∧
      next = .sending)
    (hwillNote : s.record = true → ∀ key v, t.WillNote key v →
      ({ t with phase := .busy next value } : Thread).WillNote key v ∨ key ∈ s'.noted) :
    Moves s t s' { t with phase := .busy next value } where
  submissions := hframe.1
  results := hframe.2.1
  committed := hframe.2.2.1
  record := hframe.2.2.2.1
  regen := hframe.2.2.2.2
  queue := hqueue
  noted := hnoted
  sent := hsent
  added key hkey hnot := by
    obtain ⟨hhead, rfl, rfl⟩ := hadded key hkey hnot
    exact ⟨value, ⟨hhead, hphase⟩, hhead, rfl⟩
  will key v _ h := Or.inl (will_next hphase hnext h)
  willNote hrecord key v _ h := hwillNote hrecord key v h
  stale key v _ h := stale_next hphase h

end Stage

/-- A thread hands over the subchange, and goes on to what comes next. -/
theorem moves_of_sendingChange {value : Option ℚ} (hjobs : t.jobs = first :: rest)
    (hphase : t.phase = .busy .sendingChange value) :
    Moves s t { s with queue := s.queue ++ [.subchange first value] } t.advance := by
  have hnew : ∀ x ∈ [Item.subchange first value], x.isReset = false := by
    intro x hx
    rw [List.mem_singleton.1 hx]
    rfl
  have hread : ∀ key, t.WillRead key → t.advance.WillRead key := by
    rintro key ⟨hall, hmem⟩
    unfold unread at hmem
    rw [hphase] at hmem
    exact ⟨hall, hmem⟩
  constructor
  case queue => exact ⟨_, rfl, hnew⟩
  case added => exact fun key hkey hnot => absurd hkey hnot
  case will =>
    rintro key v hcommitted (hwill | ⟨held, hholds, -⟩)
    · exact Or.inl (Or.inl (hread key hwill))
    · obtain ⟨-, rfl⟩ := stage_of_holds hphase hholds
      have hkey : first = key := by
        have hhead := hholds.1
        rw [hjobs, List.head?_cons] at hhead
        exact Option.some.inj hhead
      right
      unfold Proxy.Carried
      rw [sinceLast_append _ hnew, hkey]
      simp
  case willNote =>
    intro _ key v _ h
    exact Or.inl (Or.inl (hread key
      (willRead_of_willNote hphase (by simp) (by simp) (by simp) h)))
  case stale => exact fun key v _ h => absurd h (not_stale_of_next rfl)
  all_goals simp

theorem step_moves (h : t.step s = some (t', s')) : Moves s t s' t' := by
  unfold step at h
  split at h
  case h_1 => cases h
  case h_2 first rest hjobs hphase =>
    split at h
    case isTrue hskip =>
      cases h
      rw [Bool.and_eq_true] at hskip
      exact moves_of_skip hskip.1 (Or.inl hphase) hphase
    case isFalse =>
      split at h
      case h_1 v hv =>
        cases h
        have hread := moves_of_read (s := s) hjobs hphase
        rwa [hv] at hread
      case h_2 hnone =>
        split at h
        case isTrue =>
          cases h
          exact moves_of_missing hjobs hphase hnone
        case isFalse =>
          cases h
          have hread := moves_of_read (s := s) hjobs hphase
          rwa [hnone] at hread
  case h_3 first rest value hjobs hphase =>
    split at h
    case isTrue hskip =>
      cases h
      rw [Bool.and_eq_true] at hskip
      exact moves_of_skip hskip.1 (Or.inr ⟨value, hphase⟩) rfl
    case isFalse hgo =>
      cases h
      refine moves_of_stage hphase (by simp) ⟨rfl, rfl, rfl, rfl, rfl⟩ ⟨[], by simp, by simp⟩
        (Finset.Subset.refl _) (Finset.Subset.refl _) (fun key hkey hnot => absurd hkey hnot) ?_
      rintro - key v (hread | ⟨hheld, -⟩ | hheld | hheld)
      · exact Or.inl (Or.inl ((willRead_next hphase).2 hread))
      · exact Or.inl (Or.inr (Or.inr (Or.inl (holds_next hphase hheld))))
      · cases (stage_of_holds hphase hheld).1
      · cases (stage_of_holds hphase hheld).1
  case h_4 first rest value hjobs hphase =>
    cases h
    refine moves_of_stage hphase (by simp) ⟨rfl, rfl, rfl, rfl, rfl⟩ ⟨[], by simp, by simp⟩
      (Finset.Subset.refl _) (Finset.Subset.refl _) (fun key hkey hnot => absurd hkey hnot) ?_
    -- The record is there, so the thread is going to note the key in it.
    rintro hrecord key v (hread | ⟨hheld, -⟩ | hheld | hheld)
    · exact Or.inl (Or.inl ((willRead_next hphase).2 hread))
    · cases (stage_of_holds hphase hheld).1
    · left
      rw [hrecord]
      exact Or.inr (Or.inr (Or.inr (holds_next hphase hheld)))
    · cases (stage_of_holds hphase hheld).1
  case h_5 first rest record value hjobs hphase =>
    cases h
    refine moves_of_stage hphase (by simp) ?_ ?_ ?_ ?_ ?_ ?_
    · split <;> exact ⟨rfl, rfl, rfl, rfl, rfl⟩
    · exact ⟨[], by split <;> simp, by simp⟩
    · split
      case isTrue => exact Finset.subset_insert _ _
      case isFalse => exact Finset.Subset.refl _
    · split <;> exact Finset.Subset.refl _
    · intro key hkey hnot
      split at hkey <;> exact absurd hkey hnot
    · rintro - key v (hread | ⟨hheld, -⟩ | hheld | hheld)
      · exact Or.inl (Or.inl ((willRead_next hphase).2 hread))
      · cases (stage_of_holds hphase hheld).1
      · cases (stage_of_holds hphase hheld).1
      · right
        have hrecord := (stage_of_holds hphase hheld).1
        cases hrecord
        have hhead := hheld.1
        rw [hjobs, List.head?_cons] at hhead
        cases hhead
        exact Finset.mem_insert_self _ _
  case h_6 first rest value hjobs hphase =>
    cases h
    refine moves_of_stage hphase (by simp) ⟨rfl, rfl, rfl, rfl, rfl⟩ ⟨[], by simp, by simp⟩
      (Finset.Subset.refl _) (Finset.subset_insert _ _) ?_ ?_
    · intro key hkey hnot
      rcases Finset.mem_insert.1 hkey with rfl | hmem
      · exact ⟨by rw [hjobs, List.head?_cons], rfl, rfl⟩
      · exact absurd hmem hnot
    · intro _ key v hnote
      exact Or.inl (Or.inl ((willRead_next hphase).2
        (willRead_of_willNote hphase (by simp) (by simp) (by simp) hnote)))
  case h_7 first rest value hjobs hphase =>
    cases h
    refine moves_of_stage hphase (by simp) ⟨rfl, rfl, rfl, rfl, rfl⟩
      ⟨[.submission first.submission], rfl, by simp [Item.isReset]⟩ (Finset.Subset.refl _)
      (Finset.Subset.refl _) (fun key hkey hnot => absurd hkey hnot) ?_
    intro _ key v hnote
    exact Or.inl (Or.inl ((willRead_next hphase).2
      (willRead_of_willNote hphase (by simp) (by simp) (by simp) hnote)))
  case h_8 first rest value hjobs hphase =>
    cases h
    exact moves_of_sendingChange hjobs hphase

end Thread

end Regenerate
end Service
end ContestManagement
