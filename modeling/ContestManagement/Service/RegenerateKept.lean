import ContestManagement.Service.RegenerateThreads

/-!
# What a regenerate keeps

The reset of a regenerate wipes what was queued before it, so each score and token must be
safe again once it is handed over: it is in the data that comes with the reset, a thread is
going to hand it over, or it is noted in the record and leaves the sets of what was sent.
While the regenerate builds, `included` says which of these it is going to be.  If the
regenerate fails nothing is wiped, and what it marked as sent is forgotten.

Two things break this.  A thread that read a submission before it was scored again may put it
back into the set after the regenerate took it out, and a regenerate leaves out the token of a
submission that has no result.
-/

namespace ContestManagement
namespace Service
namespace Regenerate

open Lib

namespace Regen

/-- The reset is queued. -/
def handedOver : Regen → Bool
  | .taking _ _ => true
  | .removing _ _ => true
  | .closing (some _) => true
  | .finished (some _) => true
  | _ => false

/-- The record is set and the reset is still to come. -/
def isOpen : Regen → Bool
  | .querying _ => true
  | .building _ _ _ _ => true
  | _ => false

/-- What was copied from the record. -/
def taken : Regen → Finset Key
  | .taking _ taken => taken
  | .removing _ taken => taken
  | .closing (some taken) => taken
  | .finished (some taken) => taken
  | _ => ∅

/-- What was noted of a part has been copied. -/
def copied : Regen → Part → Bool
  | .taking .token _, .score => true
  | .removing .score _, .score => true
  | .removing .token _, _ => true
  | .closing (some _), _ => true
  | .finished (some _), _ => true
  | _, _ => false

/-- What was noted of a part has been taken out of the set of what was sent. -/
def removed : Regen → Part → Bool
  | .taking .token _, .score => true
  | .removing .token _, .score => true
  | .closing (some _), _ => true
  | .finished (some _), _ => true
  | _, _ => false

/-- What was sent when the regenerate began, while that may be of use. -/
def before : Regen → Finset Key
  | .saving before => before
  | .saved before => before
  | .querying before => before
  | .building before _ _ _ => before
  | _ => ∅

/-- The regenerate is going to forget that the key was sent if it fails. -/
def Forgets (key : Key) : Regen → Prop
  | .saved before => key ∉ before
  | .querying before => key ∉ before
  | .building before _ _ _ => key ∉ before
  | .forgetting .score before => key ∉ before
  | .forgetting .token before => key.part = .token ∧ key ∉ before
  | .dropping .score before since => if key.part = .score then key ∈ since else key ∉ before
  | .dropping .token _ since => key.part = .token ∧ key ∈ since
  | _ => False

/-- The regenerate has read the value, or is still going to read the key. -/
def Includes (key : Key) (value : ℚ) : Regen → Prop
  | .querying _ => True
  | .building _ jobs current operations =>
      key ∈ jobs ∨ (∃ marked, current = some (key, value, marked)) ∨
        Item.subchange key (some value) ∈ operations
  | _ => False

end Regen

namespace Proxy

/-- The value is queued after the last reset, or a thread is going to hand it over. -/
def Safe (s : Proxy) (key : Key) (value : ℚ) : Prop :=
  s.Carried key value ∨ ∃ t ∈ s.threads, t.Will key value

/-- The reset may have wiped the key: it was noted before it was copied. -/
def Wiped (s : Proxy) (key : Key) : Prop :=
  if s.regen.copied key.part then key ∈ s.regen.taken else key ∈ s.noted

end Proxy

/-! ## The condition -/

/-- A thread does not put back into the set what the regenerate took out of it, with a value
that is not the committed one. -/
def PutsBackNothing (s : Proxy) (t : Thread) : Prop :=
  ∀ key ∈ t.jobs.head?, ∀ value, t.phase = .busy .adding value →
    s.regen.removed key.part = true → key ∈ s.regen.taken → key ∉ s.sent →
      value = s.committed.get? key

/-- What the regenerate looks at next. -/
def Regen.upNext : Regen → Option Key
  | .building _ (key :: _) none _ => some key
  | _ => none

/-- The regenerate does not leave out a submission that has a token. -/
def LeavesNoToken (s : Proxy) : Prop :=
  ∀ key ∈ s.regen.upNext, s.skips key = true →
    s.committed.get? ⟨.token, key.submission⟩ = none

/-- The steps in which nothing goes wrong. -/
def Careful (s : Proxy) : Label → Prop
  | .work i => ∀ t ∈ s.threads[i]?, PutsBackNothing s t
  | .regenerate => LeavesNoToken s
  | _ => True

/-! ## The invariant -/

theorem Regen.copied_of_removed {regen : Regen} {part : Part} (h : regen.removed part = true) :
    regen.copied part = true := by
  cases regen with
  | taking p taken => cases p <;> cases part <;> simp_all [removed, copied]
  | removing p taken => cases p <;> cases part <;> simp_all [removed, copied]
  | closing taken => cases taken <;> simp_all [removed, copied]
  | finished taken => cases taken <;> simp_all [removed, copied]
  | _ => simp [removed] at h

structure Kept (s : Proxy) : Prop where
  stored : ∀ key value, s.committed.get? key = some value → key.submission ∈ s.submissions ∧
    (key.part = .score → key.submission ∈ s.results)
  record : s.regen.isOpen = true → s.record = true
  operations : ∀ before jobs current operations,
    s.regen = .building before jobs current operations → ∀ x ∈ operations, x.isReset = false
  before : s.regen.before ⊆ s.sent
  stale : s.regen.handedOver = false → ∀ key value, s.committed.get? key = some value →
    (∃ t ∈ s.threads, t.Stale key value) → s.Safe key value
  sent : s.regen.handedOver = false → ∀ key value, s.committed.get? key = some value →
    key ∈ s.sent → s.Safe key value ∨ s.regen.Forgets key
  included : s.regen.isOpen = true → ∀ key value, s.committed.get? key = some value →
    s.regen.Includes key value ∨ key ∈ s.noted ∨ ∃ t ∈ s.threads, t.WillNote key value
  wiped : s.regen.handedOver = true → ∀ key value, s.committed.get? key = some value →
    s.Safe key value ∨ s.Wiped key
  handed : s.regen.handedOver = true → ∀ key value, s.committed.get? key = some value →
    key ∈ s.sent → s.Safe key value ∨ s.Wiped key ∧ s.regen.removed key.part = false

namespace Kept

variable {s s' : Proxy}

/-! ## Steps of the threads -/

/-- The state after a step of a thread. -/
theorem safe_of_moves {t t' : Thread} {i : Nat} (hget : s.threads[i]? = some t)
    (hmoves : Moves s t s' t') {key : Key} {value : ℚ} (hcommitted : s.committed.get? key = some value)
    (h : s.Safe key value) :
    ({ s' with threads := s.threads.set i t' } : Proxy).Safe key value := by
  obtain ⟨new, hqueue, hnew⟩ := hmoves.queue
  rcases h with hcarried | hwill
  · exact Or.inl (hcarried.append hqueue hnew)
  · rcases exists_mem_set_of (b := t') hget hwill with hself | hother
    · rcases hmoves.will key value hcommitted hself with hwill' | hcarried
      · exact Or.inr ⟨t', mem_set_self hget, hwill'⟩
      · exact Or.inl hcarried
    · exact Or.inr hother

/-- A thread puts a key into the set. -/
theorem safe_of_added {t t' : Thread} {i : Nat} (hget : s.threads[i]? = some t)
    (hmoves : Moves s t s' t') {key : Key} {value : ℚ} (hkey : key ∈ s'.sent) (hnot : key ∉ s.sent) :
    ({ s' with threads := s.threads.set i t' } : Proxy).Safe key value ∨
      t.Stale key value ∧ t.jobs.head? = some key ∧
        ∃ other, t.phase = .busy .adding other ∧ other ≠ some value := by
  obtain ⟨other, hadding, hsending⟩ := hmoves.added key hkey hnot
  by_cases hcurrent : other = some value
  · subst hcurrent
    exact Or.inl (Or.inr ⟨t', mem_set_self hget, Or.inr ⟨_, hsending, by simp⟩⟩)
  · exact Or.inr ⟨⟨_, other, hadding, hcurrent⟩, hadding.1, other, hadding.2, hcurrent⟩

theorem wiped_of_moves {t t' : Thread} {threads : List Thread} (hmoves : Moves s t s' t') {key : Key}
    (h : s.Wiped key) : ({ s' with threads := threads } : Proxy).Wiped key := by
  unfold Proxy.Wiped at h ⊢
  dsimp only
  rw [hmoves.regen]
  split at h
  case isTrue hcopied => rwa [if_pos hcopied]
  case isFalse hcopied =>
    rw [if_neg hcopied]
    exact hmoves.noted h

theorem of_moves (h : Kept s) {t t' : Thread} {i : Nat} (hget : s.threads[i]? = some t)
    (hmoves : Moves s t s' t') (hputs : PutsBackNothing s t) :
    Kept { s' with threads := s.threads.set i t' } := by
  obtain ⟨hstored, hrecord, hoperations, hbefore, hstale, hsent, hincluded, hwiped, hhanded⟩ := h
  have hsafe : ∀ {key : Key} {value : ℚ}, s.committed.get? key = some value → s.Safe key value →
      ({ s' with threads := s.threads.set i t' } : Proxy).Safe key value :=
    fun hcommitted => safe_of_moves hget hmoves hcommitted
  constructor
  case stored =>
    dsimp only
    rw [hmoves.committed, hmoves.submissions, hmoves.results]
    exact hstored
  case record =>
    dsimp only
    rw [hmoves.regen, hmoves.record]
    exact hrecord
  case operations =>
    dsimp only
    rw [hmoves.regen]
    exact hoperations
  case before =>
    dsimp only
    rw [hmoves.regen]
    exact hbefore.trans hmoves.sent
  case stale =>
    dsimp only
    rw [hmoves.regen, hmoves.committed]
    intro hover key value hcommitted hexists
    refine hsafe hcommitted (hstale hover key value hcommitted ?_)
    rcases exists_mem_of_set hexists with hself | hother
    · exact ⟨t, List.mem_of_getElem? hget, hmoves.stale key value hcommitted hself⟩
    · exact hother
  case sent =>
    dsimp only
    rw [hmoves.regen, hmoves.committed]
    intro hover key value hcommitted hkey
    by_cases hold : key ∈ s.sent
    · rcases hsent hover key value hcommitted hold with hkept | hforgets
      · exact Or.inl (hsafe hcommitted hkept)
      · exact Or.inr hforgets
    · rcases safe_of_added hget hmoves hkey hold with hkept | ⟨hother, -⟩
      · exact Or.inl hkept
      · exact Or.inl (hsafe hcommitted (hstale hover key value hcommitted
          ⟨t, List.mem_of_getElem? hget, hother⟩))
  case included =>
    dsimp only
    rw [hmoves.regen, hmoves.committed]
    intro hopen key value hcommitted
    rcases hincluded hopen key value hcommitted with hincludes | hnoted | hexists
    · exact Or.inl hincludes
    · exact Or.inr (Or.inl (hmoves.noted hnoted))
    · rcases exists_mem_set_of (b := t') hget hexists with hself | hother
      · rcases hmoves.willNote (hrecord hopen) key value hcommitted hself with hnote | hnoted
        · exact Or.inr (Or.inr ⟨t', mem_set_self hget, hnote⟩)
        · exact Or.inr (Or.inl hnoted)
      · exact Or.inr (Or.inr hother)
  case wiped =>
    intro hover key value hcommitted
    dsimp only at hover hcommitted
    rw [hmoves.regen] at hover
    rw [hmoves.committed] at hcommitted
    exact (hwiped hover key value hcommitted).imp (hsafe hcommitted) (wiped_of_moves hmoves)
  case handed =>
    intro hover key value hcommitted hkey
    dsimp only at hover hcommitted ⊢
    rw [hmoves.regen] at hover
    rw [hmoves.committed] at hcommitted
    by_cases hold : key ∈ s.sent
    · rcases hhanded hover key value hcommitted hold with hkept | ⟨hgone, hremoved⟩
      · exact Or.inl (hsafe hcommitted hkept)
      · exact Or.inr ⟨wiped_of_moves hmoves hgone, by rw [hmoves.regen, hremoved]⟩
    · rcases safe_of_added hget hmoves hkey hold with hkept | ⟨-, hhead, other, hadding, hother⟩
      · exact Or.inl hkept
      · rcases hwiped hover key value hcommitted with hkept | hgone
        · exact Or.inl (hsafe hcommitted hkept)
        · refine Or.inr ⟨wiped_of_moves hmoves hgone, ?_⟩
          -- It would put back what was taken out.
          by_contra hremoved
          rw [hmoves.regen, Bool.not_eq_false] at hremoved
          unfold Proxy.Wiped at hgone
          rw [if_pos (Regen.copied_of_removed hremoved)] at hgone
          exact hother ((hputs key hhead other hadding hremoved hgone hold).trans hcommitted)

theorem work (h : Kept s) {i : Nat} (hcareful : Careful s (.work i))
    (hstep : s.step (.work i) = some s') : Kept s' := by
  simp only [Proxy.step] at hstep
  split at hstep
  case h_1 => cases hstep
  case h_2 t hget =>
    split at hstep
    case h_1 => cases hstep
    case h_2 t' s'' hthread =>
      cases hstep
      exact h.of_moves hget (Thread.step_moves hthread) (hcareful t hget)

/-! ## New threads and commits -/

theorem spawn (h : Kept s) {t : Thread} (hnext : t.phase = .next) :
    Kept { s with threads := s.threads ++ [t] } := by
  have hsafe : ∀ {key : Key} {value : ℚ}, s.Safe key value →
      ({ s with threads := s.threads ++ [t] } : Proxy).Safe key value := by
    rintro key value (hcarried | ⟨x, hx, hwill⟩)
    · exact Or.inl hcarried
    · exact Or.inr ⟨x, List.mem_append_left _ hx, hwill⟩
  refine ⟨h.stored, h.record, h.operations, h.before, ?_, ?_, ?_, ?_, ?_⟩
  · rintro hover key value hcommitted ⟨x, hx, hstale⟩
    rcases List.mem_append.1 hx with hold | hnew
    · exact hsafe (h.stale hover key value hcommitted ⟨x, hold, hstale⟩)
    · rw [List.mem_singleton.1 hnew] at hstale
      exact absurd hstale (Thread.not_stale_of_next hnext)
  · intro hover key value hcommitted hkey
    exact (h.sent hover key value hcommitted hkey).imp_left hsafe
  · intro hopen key value hcommitted
    rcases h.included hopen key value hcommitted with hincludes | hnoted | ⟨x, hx, hnote⟩
    · exact Or.inl hincludes
    · exact Or.inr (Or.inl hnoted)
    · exact Or.inr (Or.inr ⟨x, List.mem_append_left _ hx, hnote⟩)
  · intro hover key value hcommitted
    exact (h.wiped hover key value hcommitted).imp_left hsafe
  · intro hover key value hcommitted hkey
    exact (h.handed hover key value hcommitted hkey).imp_left hsafe

/-- The notification of a commit makes the new value safe. -/
theorem commit (h : Kept s) {key : Key} {value : ℚ} (hsubmission : key.submission ∈ s.submissions)
    (hresult : key.part = .score → key.submission ∈ s.results) :
    Kept { s with
      committed := s.committed.set key value
      threads := s.threads ++ [Proxy.notification key] } := by
  have hspawn := h.spawn (t := Proxy.notification key) rfl
  have hmem : Proxy.notification key ∈ s.threads ++ [Proxy.notification key] := by simp
  have hnote : ∀ v, (Proxy.notification key).WillNote key v := fun v =>
    (Thread.willNote_iff_of_next rfl).2 ⟨rfl, by simp [Proxy.notification]⟩
  have hnew : ∀ v, ({ s with
      committed := s.committed.set key value
      threads := s.threads ++ [Proxy.notification key] } : Proxy).Safe key v :=
    fun v => Or.inr ⟨_, hmem, (hnote v).will⟩
  -- Nothing changes for the other keys.
  have hother : ∀ {k v}, k ≠ key → (s.committed.set key value).get? k = some v →
      s.committed.get? k = some v := by
    intro k v hne hget
    rwa [Dict.get?_set, if_neg hne] at hget
  refine ⟨?_, hspawn.record, hspawn.operations, hspawn.before, ?_, ?_, ?_, ?_, ?_⟩
  · intro k v hget
    by_cases hk : k = key
    · rw [hk]
      exact ⟨hsubmission, hresult⟩
    · exact h.stored k v (hother hk hget)
  · intro hover k v hget hstale
    by_cases hk : k = key
    · rw [hk]
      exact hnew v
    · exact hspawn.stale hover k v (hother hk hget) hstale
  · intro hover k v hget hsent
    by_cases hk : k = key
    · rw [hk]
      exact Or.inl (hnew v)
    · exact hspawn.sent hover k v (hother hk hget) hsent
  · intro hopen k v hget
    by_cases hk : k = key
    · rw [hk]
      exact Or.inr (Or.inr ⟨_, hmem, hnote v⟩)
    · exact hspawn.included hopen k v (hother hk hget)
  · intro hover k v hget
    by_cases hk : k = key
    · rw [hk]
      exact Or.inl (hnew v)
    · exact hspawn.wiped hover k v (hother hk hget)
  · intro hover k v hget hsent
    by_cases hk : k = key
    · rw [hk]
      exact Or.inl (hnew v)
    · exact hspawn.handed hover k v (hother hk hget) hsent

theorem submit (h : Kept s) (id : ℕ) : Kept { s with submissions := s.submissions ++ [id] } := by
  refine ⟨fun key value hcommitted => ?_, h.record, h.operations, h.before, h.stale, h.sent,
    h.included, h.wiped, h.handed⟩
  obtain ⟨hsubmission, hresult⟩ := h.stored key value hcommitted
  exact ⟨List.mem_append_left _ hsubmission, hresult⟩

theorem newResult (h : Kept s) (id : ℕ) : Kept { s with results := s.results ++ [id] } := by
  refine ⟨fun key value hcommitted => ?_, h.record, h.operations, h.before, h.stale, h.sent,
    h.included, h.wiped, h.handed⟩
  obtain ⟨hsubmission, hresult⟩ := h.stored key value hcommitted
  exact ⟨hsubmission, fun hscore => List.mem_append_left _ (hresult hscore)⟩

/-! ## Steps of the regenerate -/

/-- Before the record is set, and after a failure. -/
theorem of_closed (hstored : ∀ key value, s.committed.get? key = some value →
      key.submission ∈ s.submissions ∧ (key.part = .score → key.submission ∈ s.results))
    (hover : s.regen.handedOver = false) (hopen : s.regen.isOpen = false)
    (hbefore : s.regen.before ⊆ s.sent)
    (hstale : ∀ key value, s.committed.get? key = some value →
      (∃ t ∈ s.threads, t.Stale key value) → s.Safe key value)
    (hsent : ∀ key value, s.committed.get? key = some value → key ∈ s.sent →
      s.Safe key value ∨ s.regen.Forgets key) : Kept s where
  stored := hstored
  record := by simp [hopen]
  operations before jobs current operations hregen := by simp [hregen, Regen.isOpen] at hopen
  before := hbefore
  stale _ := hstale
  sent _ := hsent
  included := by simp [hopen]
  wiped := by simp [hover]
  handed := by simp [hover]

/-- After the reset is handed over. -/
theorem of_over (hstored : ∀ key value, s.committed.get? key = some value →
      key.submission ∈ s.submissions ∧ (key.part = .score → key.submission ∈ s.results))
    (hover : s.regen.handedOver = true)
    (hwiped : ∀ key value, s.committed.get? key = some value → s.Safe key value ∨ s.Wiped key)
    (hhanded : ∀ key value, s.committed.get? key = some value → key ∈ s.sent →
      s.Safe key value ∨ s.Wiped key ∧ s.regen.removed key.part = false) : Kept s := by
  have hopen : s.regen.isOpen = false ∧ s.regen.before = ∅ := by
    cases hregen : s.regen <;> simp_all [Regen.handedOver, Regen.isOpen, Regen.before]
  refine ⟨hstored, by simp [hopen], fun before jobs current operations hregen => ?_, ?_,
    by simp [hover], by simp [hover], by simp [hopen], fun _ => hwiped, fun _ => hhanded⟩
  · simp [hregen, Regen.handedOver] at hover
  · rw [hopen.2]
    exact Finset.empty_subset _

theorem mem_ofPart {part : Part} {keys : Finset Key} {key : Key} :
    key ∈ ofPart part keys ↔ key ∈ keys ∧ key.part = part := by
  unfold ofPart
  rw [Finset.mem_filter]

/-- The regenerate begins with copies of what was sent. -/
theorem save (h : Kept s) {regen : Regen} (hidle : s.regen.handedOver = false)
    (hforgets : ∀ key, ¬ s.regen.Forgets key) (hover : regen.handedOver = false)
    (hopen : regen.isOpen = false) (hbefore : regen.before ⊆ s.sent) :
    Kept { s with regen := regen } := by
  refine of_closed h.stored hover hopen hbefore (h.stale hidle) ?_
  intro key value hcommitted hkey
  exact Or.inl ((h.sent hidle key value hcommitted hkey).resolve_right (hforgets key))

theorem startBuild (h : Kept s) {before : Finset Key} (hregen : s.regen = .saved before) :
    Kept { s with record := true, noted := ∅, regen := .querying before } := by
  have hover : s.regen.handedOver = false := by rw [hregen]; rfl
  have hbefore := h.before
  have hsent := h.sent hover
  rw [hregen] at hbefore hsent
  exact ⟨h.stored, fun _ => rfl, by simp, hbefore, fun _ => h.stale hover, fun _ => hsent,
    fun _ key value hcommitted => Or.inl trivial, by simp [Regen.handedOver],
    by simp [Regen.handedOver]⟩

theorem mem_keysOf {submissions : List ℕ} {key : Key} :
    key ∈ keysOf submissions ↔ key.submission ∈ submissions := by
  obtain ⟨part, id⟩ := key
  unfold keysOf
  cases part <;> simp

theorem query (h : Kept s) {before : Finset Key} (hregen : s.regen = .querying before) :
    Kept { s with regen := .building before (keysOf s.submissions) none [.contestData] } := by
  have hover : s.regen.handedOver = false := by rw [hregen]; rfl
  have hbefore := h.before
  have hsent := h.sent hover
  have hrecord := h.record
  rw [hregen] at hbefore hsent hrecord
  refine ⟨h.stored, hrecord, ?_, hbefore, fun _ => h.stale hover, fun _ => hsent, ?_,
    by simp [Regen.handedOver], by simp [Regen.handedOver]⟩
  · rintro before' jobs current operations hsame x hx
    cases hsame
    rw [List.mem_singleton.1 hx]
    rfl
  · intro _ key value hcommitted
    exact Or.inl (Or.inl (mem_keysOf.2 (h.stored key value hcommitted).1))

/-- While the data is built only what the regenerate includes changes, and what it marks. -/
theorem build (h : Kept s) {before : Finset Key} {jobs jobs' : List Key}
    {current current' : Option (Key × ℚ × Bool)} {operations operations' : List Item}
    (hregen : s.regen = .building before jobs current operations) {sent : Finset Key}
    (hsubset : s.sent ⊆ sent) (hmarked : ∀ key ∈ sent, key ∈ s.sent ∨ key ∉ before)
    (hoperations : ∀ x ∈ operations', x.isReset = false)
    (hincludes : ∀ key value, s.committed.get? key = some value →
      (Regen.building before jobs current operations).Includes key value →
        (Regen.building before jobs' current' operations').Includes key value) :
    Kept { s with sent := sent, regen := .building before jobs' current' operations' } := by
  have hover : s.regen.handedOver = false := by rw [hregen]; rfl
  have hopen : s.regen.isOpen = true := by rw [hregen]; rfl
  have hbefore := h.before
  have hsent := h.sent hover
  have hincluded := h.included hopen
  rw [hregen] at hbefore hsent hincluded
  refine ⟨h.stored, fun _ => h.record hopen, ?_, hbefore.trans hsubset, fun _ => h.stale hover, ?_, ?_,
    by simp [Regen.handedOver], by simp [Regen.handedOver]⟩
  · rintro before' jobs'' current'' operations'' hsame
    cases hsame
    exact hoperations
  · intro _ key value hcommitted hkey
    rcases hmarked key hkey with hold | hnew
    · exact hsent key value hcommitted hold
    · exact Or.inr hnew
  · intro _ key value hcommitted
    rcases hincluded key value hcommitted with hincludes' | hnoted | hnote
    · exact Or.inl (hincludes key value hcommitted hincludes')
    · exact Or.inr (Or.inl hnoted)
    · exact Or.inr (Or.inr hnote)

/-- What the reset wipes is in its data, noted, or still in the hands of a thread. -/
theorem handOver (h : Kept s) {before : Finset Key} {operations : List Item}
    (hregen : s.regen = .building before [] none operations) :
    Kept { s with queue := s.queue ++ .reset :: operations, regen := .taking .score ∅ } := by
  have hopen : s.regen.isOpen = true := by rw [hregen]; rfl
  have hincluded := h.included hopen
  rw [hregen] at hincluded
  have hkept : ∀ key value, s.committed.get? key = some value →
      ({ s with queue := s.queue ++ .reset :: operations, regen := .taking .score ∅ } : Proxy).Safe
        key value ∨ key ∈ s.noted := by
    intro key value hcommitted
    rcases hincluded key value hcommitted with hincludes | hnoted | ⟨t, ht, hnote⟩
    · rcases hincludes with hjob | ⟨marked, hcurrent⟩ | hoperation
      · cases hjob
      · cases hcurrent
      · left
        left
        unfold Proxy.Carried
        rw [sinceLast_append_cons _ rfl (h.operations _ _ _ _ hregen)]
        exact hoperation
    · exact Or.inr hnoted
    · exact Or.inl (Or.inr ⟨t, ht, hnote.will⟩)
  refine of_over h.stored rfl ?_ ?_
  · intro key value hcommitted
    exact hkept key value hcommitted
  · intro key value hcommitted _
    exact (hkept key value hcommitted).imp_right fun hnoted => ⟨hnoted, rfl⟩

/-- What was noted of a part is copied. -/
theorem take (h : Kept s) {part : Part} {taken : Finset Key} (hregen : s.regen = .taking part taken) :
    Kept { s with regen := .removing part (taken ∪ ofPart part s.noted) } := by
  have hover : s.regen.handedOver = true := by rw [hregen]; rfl
  have hwiped : ∀ key, s.Wiped key →
      ({ s with regen := .removing part (taken ∪ ofPart part s.noted) } : Proxy).Wiped key := by
    intro key hkey
    unfold Proxy.Wiped at hkey ⊢
    rw [hregen] at hkey
    obtain ⟨kpart, id⟩ := key
    cases part <;> cases kpart <;>
      simp_all [Regen.copied, Regen.taken, Finset.mem_union, mem_ofPart]
  have hremoved : ∀ p, (Regen.removing part (taken ∪ ofPart part s.noted)).removed p =
      (Regen.taking part taken).removed p := by
    intro p
    cases part <;> cases p <;> rfl
  have hhanded := h.handed hover
  rw [hregen] at hhanded
  refine of_over h.stored rfl ?_ ?_
  · intro key value hcommitted
    exact (h.wiped hover key value hcommitted).imp_right (hwiped key)
  · intro key value hcommitted hkey
    rcases hhanded key value hcommitted hkey with hkept | ⟨hgone, hnot⟩
    · exact Or.inl hkept
    · exact Or.inr ⟨hwiped key hgone, (hremoved key.part).trans hnot⟩

/-- The phase after what was noted of a part is taken out of the set. -/
def afterRemoval (part : Part) (taken : Finset Key) : Regen :=
  match part with
  | .score => .taking .token taken
  | .token => .closing (some taken)

theorem remove (h : Kept s) {part : Part} {taken : Finset Key}
    (hregen : s.regen = .removing part taken) :
    Kept { s with sent := s.sent \ ofPart part taken, regen := afterRemoval part taken } := by
  have hover : s.regen.handedOver = true := by rw [hregen]; rfl
  have hcopied : ∀ p, (afterRemoval part taken).copied p = s.regen.copied p := by
    intro p
    rw [hregen]
    cases part <;> cases p <;> rfl
  have htaken : (afterRemoval part taken).taken = s.regen.taken := by
    rw [hregen]
    cases part <;> rfl
  have hwiped : ∀ key, ({ s with
      sent := s.sent \ ofPart part taken, regen := afterRemoval part taken } : Proxy).Wiped key ↔
        s.Wiped key := by
    intro key
    unfold Proxy.Wiped
    dsimp only
    rw [hcopied, htaken]
  refine of_over h.stored (by cases part <;> rfl) ?_ ?_
  · intro key value hcommitted
    exact (h.wiped hover key value hcommitted).imp_right (hwiped key).2
  · intro key value hcommitted hkey
    rw [Finset.mem_sdiff, mem_ofPart] at hkey
    obtain ⟨hsent, hnot⟩ := hkey
    rcases h.handed hover key value hcommitted hsent with hkept | ⟨hgone, hremoved⟩
    · exact Or.inl hkept
    · by_cases hpart : key.part = part
      · -- It was copied, so it has just been taken out.
        have hcopy : s.regen.copied key.part = true := by
          rw [hregen, hpart]
          cases part <;> rfl
        unfold Proxy.Wiped at hgone
        rw [if_pos hcopy, hregen] at hgone
        exact absurd ⟨hgone, hpart⟩ hnot
      · refine Or.inr ⟨(hwiped key).2 hgone, ?_⟩
        rw [hregen] at hremoved
        obtain ⟨kpart, id⟩ := key
        cases part <;> cases kpart <;> simp_all [Regen.removed, afterRemoval]

/-- What is forgotten after a failure is copied. -/
theorem copySince (h : Kept s) {part : Part} {before : Finset Key}
    (hregen : s.regen = .forgetting part before) :
    Kept { s with regen := .dropping part before (ofPart part s.sent \ before) } := by
  have hover : s.regen.handedOver = false := by rw [hregen]; rfl
  have hsent := h.sent hover
  rw [hregen] at hsent
  refine of_closed h.stored rfl rfl (Finset.empty_subset _) (h.stale hover) ?_
  intro key value hcommitted hkey
  refine (hsent key value hcommitted hkey).imp_right fun hforgets => ?_
  obtain ⟨kpart, id⟩ := key
  cases part <;> cases kpart <;>
    simp_all [Regen.Forgets, mem_ofPart, Finset.mem_sdiff]

/-- The phase after what was sent of a part since the regenerate began is forgotten. -/
def afterDrop (part : Part) (before : Finset Key) : Regen :=
  match part with
  | .score => .forgetting .token before
  | .token => .closing none

theorem drop (h : Kept s) {part : Part} {before since : Finset Key}
    (hregen : s.regen = .dropping part before since) :
    Kept { s with sent := s.sent \ since, regen := afterDrop part before } := by
  have hover : s.regen.handedOver = false := by rw [hregen]; rfl
  have hsent := h.sent hover
  rw [hregen] at hsent
  refine of_closed h.stored (by cases part <;> rfl) (by cases part <;> rfl)
    (by cases part <;> exact Finset.empty_subset _) (h.stale hover) ?_
  intro key value hcommitted hkey
  rw [Finset.mem_sdiff] at hkey
  refine (hsent key value hcommitted hkey.1).imp_right fun hforgets => ?_
  obtain ⟨kpart, id⟩ := key
  cases part <;> cases kpart <;> simp_all [Regen.Forgets, afterDrop]

theorem close (h : Kept s) {taken : Option (Finset Key)} (hregen : s.regen = .closing taken) :
    Kept { s with record := false, regen := .finished taken } := by
  cases taken with
  | none =>
      have hover : s.regen.handedOver = false := by rw [hregen]; rfl
      have hsent := h.sent hover
      rw [hregen] at hsent
      exact of_closed h.stored rfl rfl (Finset.empty_subset _) (h.stale hover) hsent
  | some taken =>
      have hover : s.regen.handedOver = true := by rw [hregen]; rfl
      have hwiped := h.wiped hover
      have hhanded := h.handed hover
      unfold Proxy.Wiped at hwiped hhanded
      rw [hregen] at hwiped hhanded
      exact of_over h.stored rfl hwiped hhanded

/-- A failure wipes nothing. -/
theorem fail (h : Kept s) (hstep : s.fail = some s') : Kept s' := by
  have hforget : ∀ before, s.regen.handedOver = false → (∀ key, s.regen.Forgets key → key ∉ before) →
      Kept { s with regen := .forgetting .score before } := by
    intro before hover hforgets
    refine of_closed h.stored rfl rfl (Finset.empty_subset _) (h.stale hover) ?_
    intro key value hcommitted hkey
    exact (h.sent hover key value hcommitted hkey).imp_right (hforgets key)
  unfold Proxy.fail at hstep
  split at hstep
  case h_1 before hregen =>
    cases hstep
    refine hforget before ?_ ?_
    · rw [hregen]
      rfl
    · rw [hregen]
      exact fun key => id
  case h_2 before jobs current operations hregen =>
    cases hstep
    refine hforget before ?_ ?_
    · rw [hregen]
      rfl
    · rw [hregen]
      exact fun key => id
  case h_3 => cases hstep

end Kept

end Regenerate
end Service
end ContestManagement
