import ContestManagement.Db.FileCacherRuns

/-!
# A get finds what was put

What a put has stored stays in the backend as long as no delete of it is made, if none was on its
way when the put began.  Hence a get that is made after the put returned finds it, whatever becomes
of the file of the cache in the meantime.
-/

namespace ContestManagement
namespace Db

open Lib

variable {B : Backend} {hash : Bytes → String}

namespace Phase

/-- A put at this phase has its file in the backend. -/
def hasStored : Phase → Bool
  | publishing _ | returned _ => true
  | _ => false

theorem hasStored_of_isReturned {phase : Phase} (h : phase.isReturned = true) :
    phase.hasStored = true := by
  cases phase with
  | returned content => rfl
  | _ => cases h

theorem isOver_of_isReturned {phase : Phase} (h : phase.isReturned = true) :
    phase.isOver = true := by
  cases phase with
  | returned content => rfl
  | _ => cases h

end Phase

namespace Files

/-- No delete of a digest was made after a call. -/
def noDeleteSince (operations : List Operation) (index : Nat) (digest : String) : Bool :=
  (operations.drop (index + 1)).all fun op => !op.call.isDelete digest

theorem noDeleteSince_iff {operations : List Operation} {index : Nat} {digest : String} :
    noDeleteSince operations index digest = true ↔
      ∀ (later : Nat) (op : Operation), index < later → operations[later]? = some op →
        op.call.isDelete digest = false := by
  rw [noDeleteSince, List.all_eq_true]
  constructor
  · intro h later op hlater hop
    have hmem : op ∈ operations.drop (index + 1) := by
      rw [List.mem_iff_getElem?]
      refine ⟨later - (index + 1), ?_⟩
      rw [List.getElem?_drop, Nat.add_sub_cancel' hlater]
      exact hop
    simpa using h op hmem
  · intro h op hop
    obtain ⟨place, hplace⟩ := List.mem_iff_getElem?.1 hop
    rw [List.getElem?_drop] at hplace
    rw [h _ op (by omega) hplace]
    rfl

/-! ## What a step of a call does to the backend -/

variable {s t : Files B} {count : Nat} {phase phase' : Phase}

theorem callStep_isOver {call : Call} (h : s.callStep hash count call phase = some (t, phase')) :
    phase.isOver = false := by
  cases hover : phase.isOver with
  | false => rfl
  | true =>
      cases phase <;> cases hover <;> cases call <;> cases h

theorem load_store {digest : String} {cacheOnly : Bool}
    (h : s.load digest cacheOnly count phase = some (t, phase')) : t.store = s.store := by
  unfold load at h
  split at h
  · split at h
    · cases h
      rfl
    · split at h
      · cases h
        rfl
      · cases h
        rfl
  · split at h
    · cases h
      rfl
    · cases h
      rfl
  · split at h
    · cases h
      rfl
    · cases h
      rfl
  · cases h
    rfl
  · cases h
    rfl
  · cases h

theorem load_notFound {digest : String} {cacheOnly : Bool}
    (h : s.load digest cacheOnly count phase = some (t, .notFound)) :
    B.getFile s.store digest = none := by
  unfold load at h
  split at h
  · split at h
    · cases h
    · split at h
      · cases h
      · cases h
  · split at h
    · cases h
    · assumption
  · split at h
    · cases h
    · split at h
      · cases h
      · cases h
  · cases h
  · cases h
  · cases h

/-- A put changes the backend by its commit only. -/
theorem putFileFromFobj_store (h : s.putFileFromFobj hash count phase = some (t, phase')) :
    t.store = s.store ∨
      ∃ temp uploaded, t.store = B.commitFile s.store (hash temp) uploaded := by
  unfold putFileFromFobj at h
  split at h
  · split at h
    · cases h
      exact Or.inl rfl
    · cases h
      exact Or.inl rfl
  · split at h
    · cases h
      exact Or.inl rfl
    · cases h
      exact Or.inl rfl
  · split at h
    · cases h
      exact Or.inl rfl
    · cases h
      exact Or.inl rfl
  · rename_i temp uploaded
    cases h
    exact Or.inr ⟨temp, uploaded, rfl⟩
  · cases h
    exact Or.inl rfl
  · cases h

/-- A put comes to a phase in which its file is stored by storing it, unless it was there. -/
theorem putFileFromFobj_hasStored {content : Bytes} (hphase : phase.PutSound content)
    (h : s.putFileFromFobj hash count phase = some (t, phase')) (hstored : phase'.hasStored = true) :
    phase.hasStored = true ∨ (B.getFile t.store (hash content)).isSome = true := by
  unfold putFileFromFobj at h
  split at h
  · split at h
    · cases h
      cases hstored
    · cases h
      cases hstored
  · rename_i temp
    split at h
    · rename_i hpresent
      cases h
      rw [B.isStored_eq] at hpresent
      obtain rfl : temp = content := hphase
      exact Or.inr hpresent
    · cases h
      cases hstored
  · split at h
    · cases h
      cases hstored
    · cases h
      cases hstored
  · rename_i temp uploaded
    cases h
    obtain ⟨rfl, rfl⟩ : temp = content ∧ uploaded = content := hphase
    right
    dsimp only
    rw [B.getFile_commitFile, if_pos rfl]
    rfl
  · exact Or.inl rfl
  · cases h

theorem remove_store {digest : String} {everywhere : Bool} (hphase : phase.RemoveSound everywhere)
    (h : s.remove digest everywhere phase = some (t, phase')) :
    t.store = s.store ∨ everywhere = true ∧ t.store = B.delete s.store digest := by
  unfold remove at h
  split at h
  · split at h
    · cases h
      exact Or.inl rfl
    · cases h
      exact Or.inl rfl
  · cases h
    exact Or.inr ⟨hphase, rfl⟩
  · cases h

/-- A file leaves the backend by a delete only. -/
theorem callStep_isSome {call : Call} (hphase : call.Sound hash phase)
    (h : s.callStep hash count call phase = some (t, phase'))
    {digest : String} (hsome : (B.getFile s.store digest).isSome = true) :
    (B.getFile t.store digest).isSome = true ∨ call.isDelete digest = true := by
  cases call with
  | get other =>
      rw [load_store h]
      exact Or.inl hsome
  | cacheFile other =>
      rw [load_store h]
      exact Or.inl hsome
  | put content =>
      left
      rcases putFileFromFobj_store h with hstore | ⟨temp, uploaded, hstore⟩
      · rw [hstore]
        exact hsome
      · rw [hstore, B.getFile_commitFile]
        split
        · rfl
        · exact hsome
  | drop other =>
      left
      rcases remove_store hphase h with hstore | ⟨heverywhere, -⟩
      · rw [hstore]
        exact hsome
      · cases heverywhere
  | delete other =>
      rcases remove_store hphase h with hstore | ⟨-, hstore⟩
      · rw [hstore]
        exact Or.inl hsome
      · by_cases hother : digest = other
        · right
          simp [Call.isDelete, hother]
        · left
          rw [hstore, B.getFile_delete, if_neg hother]
          exact hsome

/-! ## What a put has stored stays stored -/

/-- A put that no delete of its digest can undo: none was running when it began, and none was made
since. -/
structure Protected (hash : Bytes → String) (s : Files B) (index : Nat) (op : Operation)
    (content : Bytes) : Prop where
  made : s.operations[index]? = some op
  call : op.call = .put content
  quiet : op.quiet = true
  since : noDeleteSince s.operations index (hash content) = true

structure Durable (hash : Bytes → String) (s : Files B) : Prop where
  /-- No delete that was made before a quiet put is still running. -/
  quiet : ∀ (index : Nat) (op : Operation) (content : Bytes), s.operations[index]? = some op →
    op.call = .put content → op.quiet = true →
    ∀ (earlier : Nat) (other : Operation), earlier < index → s.operations[earlier]? = some other →
      other.call.isDelete (hash content) = true → other.phase.isOver = true
  stored : ∀ (index : Nat) (op : Operation) (content : Bytes), s.Protected hash index op content →
    op.phase.hasStored = true → (B.getFile s.store (hash content)).isSome = true
  returned : ∀ (index : Nat) (op : Operation) (earlier : Nat), s.operations[index]? = some op →
    earlier ∈ op.returnedBefore →
    ∃ other, s.operations[earlier]? = some other ∧ other.phase.isReturned = true
  found : ∀ (index earlier : Nat) (op put : Operation) (content : Bytes),
    s.operations[index]? = some op → op.call = .get (hash content) → earlier ∈ op.returnedBefore →
    s.Protected hash earlier put content → op.phase ≠ .notFound

variable {index : Nat} {op : Operation} {content : Bytes}

/-- No delete is running that could undo a protected put. -/
theorem Durable.not_isDelete (h : s.Durable hash) {put : Operation} {place : Nat}
    (hput : s.Protected hash place put content) (hop : s.operations[index]? = some op)
    (hover : op.phase.isOver = false) : op.call.isDelete (hash content) = false := by
  rcases lt_trichotomy place index with hlater | hsame | hearlier
  · exact noDeleteSince_iff.1 hput.since index op hlater hop
  · obtain rfl : put = op := by
      rw [← hsame, hput.made, Option.some.injEq] at hop
      exact hop
    rw [hput.call]
    rfl
  · cases hdelete : op.call.isDelete (hash content) with
    | false => rfl
    | true =>
        have := h.quiet place put content hput.made hput.call hput.quiet index op hearlier hop hdelete
        rw [this] at hover
        cases hover

/-- The calls stay what they are when one of them comes to another phase. -/
theorem exists_of_setPhase (hop : s.operations[index]? = some op)
    (hoperations : t.operations = s.operations) {place : Nat} {found : Operation}
    (hfound : (t.setPhase index op phase).operations[place]? = some found) :
    ∃ before, s.operations[place]? = some before ∧ before.call = found.call ∧
      before.quiet = found.quiet ∧ before.returnedBefore = found.returnedBefore ∧
      (place ≠ index ∧ before = found ∨ place = index ∧ before = op ∧ found.phase = phase) := by
  have hop' := hop
  rw [← hoperations] at hop'
  rw [getElem?_setPhase hop'] at hfound
  by_cases hplace : place = index
  · rw [if_pos hplace, Option.some.injEq] at hfound
    subst hplace
    subst hfound
    exact ⟨op, hop, rfl, rfl, rfl, Or.inr ⟨rfl, rfl, rfl⟩⟩
  · rw [if_neg hplace, hoperations] at hfound
    exact ⟨found, hfound, rfl, rfl, rfl, Or.inl ⟨hplace, rfl⟩⟩

theorem exists_setPhase (t : Files B) (phase : Phase)
    (hop : s.operations[index]? = some op)
    (hoperations : t.operations = s.operations) {place : Nat} {before : Operation}
    (hbefore : s.operations[place]? = some before) :
    ∃ found, (t.setPhase index op phase).operations[place]? = some found ∧
      found.call = before.call ∧ (place ≠ index → found = before) := by
  have hop' := hop
  rw [← hoperations] at hop'
  rw [getElem?_setPhase hop']
  by_cases hplace : place = index
  · rw [if_pos hplace]
    subst hplace
    rw [hop, Option.some.injEq] at hbefore
    subst hbefore
    exact ⟨_, rfl, rfl, fun hne => absurd rfl hne⟩
  · rw [if_neg hplace, hoperations]
    exact ⟨before, hbefore, rfl, fun _ => rfl⟩

theorem Protected.of_setPhase (hop : s.operations[index]? = some op)
    (hoperations : t.operations = s.operations) {place : Nat} {found : Operation}
    (h : (t.setPhase index op phase).Protected hash place found content) :
    ∃ before, s.Protected hash place before content ∧
      (place ≠ index ∧ before = found ∨ place = index ∧ before = op ∧ found.phase = phase) := by
  obtain ⟨before, hbefore, hcall, hquiet, -, hcases⟩ := exists_of_setPhase hop hoperations h.made
  refine ⟨before, ⟨hbefore, hcall.trans h.call, hquiet.trans h.quiet, ?_⟩, hcases⟩
  rw [noDeleteSince_iff]
  intro later other hlater hother
  obtain ⟨found', hfound', hcall', -⟩ := exists_setPhase t phase hop hoperations hother
  rw [← hcall']
  exact noDeleteSince_iff.1 h.since later found' hlater hfound'

/-- What has to be shown of a call that comes to another phase. -/
theorem Durable.setPhase (h : s.Durable hash) (hop : s.operations[index]? = some op)
    (hoperations : t.operations = s.operations) (hover : op.phase.isOver = false)
    (hkept : ∀ digest, (B.getFile s.store digest).isSome = true →
      (B.getFile t.store digest).isSome = true ∨ op.call.isDelete digest = true)
    (hstored : ∀ content, op.call = .put content → phase.hasStored = true →
      op.phase.hasStored = true ∨ (B.getFile t.store (hash content)).isSome = true)
    (hfound : ∀ digest, op.call = .get digest → phase = .notFound →
      B.getFile s.store digest = none) :
    (t.setPhase index op phase).Durable hash := by
  have hkeep : ∀ place put content, s.Protected hash place put content →
      put.phase.hasStored = true → (B.getFile t.store (hash content)).isSome = true := by
    intro place put content hput hphase
    rcases hkept _ (h.stored place put content hput hphase) with hsome | hdelete
    · exact hsome
    · rw [h.not_isDelete hput hop hover] at hdelete
      cases hdelete
  constructor
  case quiet =>
    intro place found content hfound hcall hquiet earlier other hearlier hother hdelete
    obtain ⟨before, hbefore, hcall', hquiet', -, -⟩ := exists_of_setPhase hop hoperations hfound
    obtain ⟨before', hbefore', hcall'', -, -, hcases⟩ := exists_of_setPhase hop hoperations hother
    rw [← hcall''] at hdelete
    have hbeforeOver := h.quiet place before content hbefore (hcall'.trans hcall)
      (hquiet'.trans hquiet) earlier before' hearlier hbefore' hdelete
    rcases hcases with ⟨-, rfl⟩ | ⟨-, rfl, -⟩
    · exact hbeforeOver
    · rw [hover] at hbeforeOver
      cases hbeforeOver
  case stored =>
    intro place found content hput hphase
    obtain ⟨before, hbefore, hcases⟩ := Protected.of_setPhase hop hoperations hput
    rcases hcases with ⟨-, rfl⟩ | ⟨-, rfl, hnext⟩
    · exact hkeep place before content hbefore hphase
    · rw [hnext] at hphase
      rcases hstored content hbefore.call hphase with hold | hnew
      · exact hkeep place before content hbefore hold
      · exact hnew
  case returned =>
    intro place found earlier hfound hearlier
    obtain ⟨before, hbefore, -, -, hreturned, -⟩ := exists_of_setPhase hop hoperations hfound
    rw [← hreturned] at hearlier
    obtain ⟨other, hother, hphase⟩ := h.returned place before earlier hbefore hearlier
    obtain ⟨found', hfound', -, hsame⟩ := exists_setPhase t phase hop hoperations hother
    have hne : earlier ≠ index := by
      rintro rfl
      rw [hop, Option.some.injEq] at hother
      rw [hother, Phase.isOver_of_isReturned hphase] at hover
      cases hover
    refine ⟨found', hfound', ?_⟩
    rw [hsame hne]
    exact hphase
  case found =>
    intro place earlier found put content hmade hcall hearlier hput hnotFound
    obtain ⟨before, hbefore, hcall', -, hreturned, hcases⟩ :=
      exists_of_setPhase hop hoperations hmade
    obtain ⟨put', hput', -⟩ := Protected.of_setPhase hop hoperations hput
    rw [← hreturned] at hearlier
    rw [← hcall'] at hcall
    rcases hcases with ⟨-, rfl⟩ | ⟨-, rfl, hnext⟩
    · exact h.found place earlier before put' content hbefore hcall hearlier hput' hnotFound
    · -- The put had returned, so its file is in the backend.
      obtain ⟨other, hother, hphase⟩ := h.returned place before earlier hbefore hearlier
      rw [hput'.made, Option.some.injEq] at hother
      subst hother
      have hsome := h.stored earlier put' content hput' (Phase.hasStored_of_isReturned hphase)
      rw [hfound (hash content) hcall (hnext.symm.trans hnotFound)] at hsome
      cases hsome

theorem mem_returnedCalls {operations : List Operation} {place : Nat}
    (h : place ∈ returnedCalls operations) :
    ∃ other, operations[place]? = some other ∧ other.phase.isReturned = true := by
  rw [returnedCalls, List.mem_filter, Option.any_eq_true] at h
  exact h.2

/-- A call that begins changes nothing for the others. -/
theorem Durable.begin (h : s.Durable hash) (call : Call) :
    ({ s with operations := s.operations ++ [newOperation hash s.operations call] } :
      Files B).Durable hash := by
  have hprotected : ∀ (place : Nat) (put : Operation) (content : Bytes),
      ({ s with operations := s.operations ++ [newOperation hash s.operations call] } :
        Files B).Protected hash place put content → s.operations[place]? = some put →
      s.Protected hash place put content := by
    intro place put content hput hmade
    refine ⟨hmade, hput.call, hput.quiet, ?_⟩
    rw [noDeleteSince_iff]
    intro later other hlater hother
    exact noDeleteSince_iff.1 hput.since later other hlater (Slots.getElem?_concat_of_some hother)
  constructor
  case quiet =>
    intro place found content hfound hcall hquiet earlier other hearlier hother hdelete
    rcases Slots.of_getElem?_concat hother with hold | ⟨hlast, -⟩
    · rcases Slots.of_getElem?_concat hfound with hfound | ⟨-, rfl⟩
      · exact h.quiet place found content hfound hcall hquiet earlier other hearlier hold hdelete
      · obtain rfl : call = .put content := hcall
        have hnone : noDelete s.operations (hash content) = true := hquiet
        rw [noDelete, List.all_eq_true] at hnone
        have hover := hnone other (List.mem_of_getElem? hold)
        rw [hdelete] at hover
        simpa using hover
    · have hlength := (List.getElem?_eq_some_iff.1 hfound).1
      rw [List.length_append, List.length_singleton] at hlength
      omega
  case stored =>
    intro place found content hput hphase
    rcases Slots.of_getElem?_concat hput.made with hfound | ⟨-, rfl⟩
    · exact h.stored place found content (hprotected place found content hput hfound) hphase
    · obtain rfl : call = .put content := hput.call
      cases hphase
  case returned =>
    intro place found earlier hfound hearlier
    have hother : ∃ other, s.operations[earlier]? = some other ∧ other.phase.isReturned = true := by
      rcases Slots.of_getElem?_concat hfound with hfound | ⟨-, rfl⟩
      · exact h.returned place found earlier hfound hearlier
      · exact mem_returnedCalls hearlier
    obtain ⟨other, hother, hphase⟩ := hother
    exact ⟨other, Slots.getElem?_concat_of_some hother, hphase⟩
  case found =>
    intro place earlier found put content hfound hcall hearlier hput
    rcases Slots.of_getElem?_concat hfound with hfound | ⟨-, rfl⟩
    · obtain ⟨other, hother, -⟩ := h.returned place found earlier hfound hearlier
      obtain rfl : other = put := by
        have hmade := hput.made
        rw [Slots.getElem?_concat_of_some hother, Option.some.injEq] at hmade
        exact hmade
      exact h.found place earlier found other content hfound hcall hearlier
        (hprotected earlier other content hput hother)
    · obtain rfl : call = .get (hash content) := hcall
      intro hphase
      cases hphase

theorem Durable.step {a : FileAction} (h : s.Durable hash) (hsound : s.Sound hash)
    (hstep : s.step hash a = some t) : t.Durable hash := by
  rcases step_cases hstep with ⟨call, rfl⟩ | ⟨index, op, count, next, phase, hop, hnext, rfl⟩ |
    ⟨index, op, hop, hover, rfl⟩ | ⟨digest, rfl⟩
  · exact h.begin call
  · have hphase := hsound.calls index op hop
    refine h.setPhase hop (hsound.addressed.callStep hphase hnext).2.2 (callStep_isOver hnext)
      (fun digest => callStep_isSome hphase hnext) ?_ ?_
    · intro content hcall hstored
      rw [hcall] at hphase hnext
      exact putFileFromFobj_hasStored hphase hnext hstored
    · intro digest hcall hnotFound
      rw [hcall, hnotFound] at hnext
      exact load_notFound hnext
  · refine h.setPhase hop rfl hover (fun digest hsome => Or.inl hsome) ?_ ?_
    · intro content _ hstored
      cases hstored
    · intro digest _ hnotFound
      cases hnotFound
  · exact ⟨h.quiet, fun place put content hput => h.stored place put content
      ⟨hput.made, hput.call, hput.quiet, hput.since⟩, h.returned,
      fun place earlier op put content hop hcall hearlier hput =>
        h.found place earlier op put content hop hcall hearlier
          ⟨hput.made, hput.call, hput.quiet, hput.since⟩⟩

theorem durable_of_reachable (h : (fileMachine B hash).Reachable s) : s.Durable hash := by
  suffices hboth : s.Sound hash ∧ s.Durable hash from hboth.2
  refine Machine.Reachable.invariant (I := fun s => s.Sound hash ∧ s.Durable hash) ?_ ?_ h
  · intro start hstart
    refine ⟨sound_of_reachable ⟨start, hstart, .refl start⟩, ?_⟩
    have hnone : ∀ (place : Nat) (op : Operation), start.operations[place]? ≠ some op := by
      intro place op
      rw [hstart.1]
      simp
    exact ⟨fun place op _ hop => absurd hop (hnone place op),
      fun place op _ hput => absurd hput.made (hnone place op),
      fun place op _ hop => absurd hop (hnone place op),
      fun place _ op _ _ hop => absurd hop (hnone place op)⟩
  · rintro s a t ⟨hsound, hdurable⟩ hstep
    exact ⟨hsound.step hstep, hdurable.step hsound hstep⟩

/-! ## A get that is left alone comes to its end -/

/-- Only one call moves. -/
def Alone (index : Nat) (_ : Files B) (a : FileAction) : Prop := ∃ count, a = .advance index count

/-- A call comes to its end when only it moves. -/
def Finishes (hash : Bytes → String) (s : Files B) (index : Nat) (op : Operation) : Prop :=
  ∃ t phase, (fileMachine B hash).Path (Alone index) s t ∧
    t.operations = s.operations.set index { op with phase } ∧
    phase.isOver = true ∧ phase ≠ .failed

theorem path_of_callStep (hop : s.operations[index]? = some op)
    (hstep : s.callStep hash count op.call op.phase = some (t, phase)) :
    (fileMachine B hash).Path (Alone index) s (t.setPhase index op phase) := by
  refine (Machine.Path.refl s).step ⟨count, rfl⟩ ?_
  change s.step hash (.advance index count) = _
  simp only [step, hop, hstep, Option.map_some]

theorem finishes_of_isOver (hop : s.operations[index]? = some op)
    (hstep : s.callStep hash count op.call op.phase = some (t, phase))
    (hoperations : t.operations = s.operations) (hover : phase.isOver = true)
    (hfailed : phase ≠ .failed) : Finishes hash s index op := by
  refine ⟨_, phase, path_of_callStep hop hstep, ?_, hover, hfailed⟩
  rw [Files.setPhase, hoperations]

theorem finishes_of_step (hop : s.operations[index]? = some op)
    (hstep : s.callStep hash count op.call op.phase = some (t, phase))
    (hoperations : t.operations = s.operations)
    (h : Finishes hash (t.setPhase index op phase) index { op with phase }) :
    Finishes hash s index op := by
  obtain ⟨u, last, hpath, hlast, hover, hfailed⟩ := h
  refine ⟨u, last, (path_of_callStep hop hstep).trans hpath, ?_, hover, hfailed⟩
  rw [hlast, Files.setPhase, hoperations, List.set_set]

theorem made_setPhase (hop : s.operations[index]? = some op)
    (hoperations : t.operations = s.operations) :
    (t.setPhase index op phase).operations[index]? = some { op with phase } := by
  rw [← hoperations] at hop
  rw [getElem?_setPhase hop, if_pos rfl]

section Get

variable {digest : String}

theorem finishes_moving (hop : s.operations[index]? = some op) (hcall : op.call = .get digest)
    (hphase : op.phase = .moving content) : Finishes hash s index op := by
  have hstep : s.callStep hash 0 op.call op.phase =
      some ({ s with cache := Function.update s.cache digest (some content) },
        .returned (some content)) := by
    rw [hcall, hphase]
    rfl
  exact finishes_of_isOver hop hstep rfl rfl (by simp)

theorem finishes_opening (hop : s.operations[index]? = some op) (hcall : op.call = .get digest)
    (hphase : op.phase = .opening content) : Finishes hash s index op := by
  have hstep : s.callStep hash 0 op.call op.phase = some (s, .moving content) := by
    rw [hcall, hphase]
    rfl
  exact finishes_of_step hop hstep rfl (finishes_moving (made_setPhase hop rfl) hcall rfl)

/-- The copy shrinks at every step, until all of the file is written. -/
theorem finishes_downloading (copy : Copy) :
    ∀ {s : Files B} {op : Operation}, s.operations[index]? = some op → op.call = .get digest →
      op.phase = .downloading copy → Finishes hash s index op := by
  induction hleft : copy.left using Nat.strong_induction_on generalizing copy with
  | _ left ih =>
      intro s op hop hcall hphase
      have hload : s.callStep hash 0 op.call op.phase =
          s.load digest false 0 (.downloading copy) := by
        rw [hcall, hphase]
        rfl
      rw [load] at hload
      cases hcopy : copy.step 0 with
      | some copy' =>
          rw [hcopy] at hload
          refine finishes_of_step hop hload rfl ?_
          have hlt := Copy.left_step hcopy
          rw [hleft] at hlt
          exact ih copy'.left hlt copy' rfl (made_setPhase hop rfl) hcall rfl
      | none =>
          rw [hcopy] at hload
          exact finishes_of_step hop hload rfl (finishes_opening (made_setPhase hop rfl) hcall rfl)

theorem finishes_requesting (hop : s.operations[index]? = some op) (hcall : op.call = .get digest)
    (hphase : op.phase = .requesting) : Finishes hash s index op := by
  have hload : s.callStep hash 0 op.call op.phase = s.load digest false 0 .requesting := by
    rw [hcall, hphase]
    rfl
  rw [load] at hload
  cases hfile : B.getFile s.store digest with
  | some found =>
      rw [hfile] at hload
      exact finishes_of_step hop hload rfl
        (finishes_downloading (Copy.ofFile found) (made_setPhase hop rfl) hcall rfl)
  | none =>
      rw [hfile] at hload
      exact finishes_of_isOver hop hload rfl rfl (by simp)

theorem finishes_looking (hop : s.operations[index]? = some op) (hcall : op.call = .get digest)
    (hphase : op.phase = .looking) : Finishes hash s index op := by
  have hload : s.callStep hash 0 op.call op.phase = s.load digest false 0 .looking := by
    rw [hcall, hphase]
    rfl
  rw [load] at hload
  by_cases htombstone : digest = tombstone
  · rw [if_pos htombstone] at hload
    exact finishes_of_isOver hop hload rfl rfl (by simp)
  · rw [if_neg htombstone] at hload
    cases hfile : s.cache digest with
    | some found =>
        rw [hfile] at hload
        exact finishes_of_isOver hop hload rfl rfl (by simp)
    | none =>
        rw [hfile] at hload
        exact finishes_of_step hop hload rfl (finishes_requesting (made_setPhase hop rfl) hcall rfl)

theorem finishes_get (hop : s.operations[index]? = some op) (hcall : op.call = .get digest)
    (hsound : op.call.Sound hash op.phase) (hover : op.phase.isOver = false) :
    Finishes hash s index op := by
  rw [hcall] at hsound
  cases hphase : op.phase with
  | looking => exact finishes_looking hop hcall hphase
  | requesting => exact finishes_requesting hop hcall hphase
  | downloading copy => exact finishes_downloading copy hop hcall hphase
  | opening content => exact finishes_opening hop hcall hphase
  | moving content => exact finishes_moving hop hcall hphase
  | returned content | notFound | tombstoned | failed =>
      rw [hphase] at hover
      cases hover
  | _ =>
      rw [hphase] at hsound
      cases hsound

end Get

/-- How a get that is over ended. -/
theorem Sound.get_over (h : s.Sound hash) {digest : String} (hop : s.operations[index]? = some op)
    (hcall : op.call = .get digest) (hover : op.phase.isOver = true) :
    (∃ content, op.phase = .returned (some content) ∧ hash content = digest) ∨
      op.phase = .notFound ∨ (op.phase = .tombstoned ∧ digest = tombstone) ∨
      op.phase = .failed := by
  have hsound := h.calls index op hop
  rw [hcall] at hsound
  cases hphase : op.phase with
  | returned result =>
      rw [hphase] at hsound
      cases result with
      | some content => exact Or.inl ⟨content, rfl, hsound.1⟩
      | none => cases hsound
  | notFound => simp
  | tombstoned =>
      rw [hphase] at hsound
      exact Or.inr (Or.inr (Or.inl ⟨rfl, hsound⟩))
  | failed => simp
  | _ =>
      rw [hphase] at hover
      cases hover

/-- A get after a put ends with what was put, or because it was killed. -/
theorem get_after_put (hinjective : Function.Injective hash)
    (htombstone : ∀ content, hash content ≠ tombstone) (hs : (fileMachine B hash).Reachable s)
    {place : Nat} {put : Operation} (hput : s.Protected hash place put content)
    (hop : s.operations[index]? = some op) (hcall : op.call = .get (hash content))
    (hreturned : place ∈ op.returnedBefore) (hover : op.phase.isOver = true) :
    op.phase = .returned (some content) ∨ op.phase = .failed := by
  rcases (sound_of_reachable hs).get_over hop hcall hover with ⟨found, hphase, hfound⟩ |
    hphase | ⟨-, hdigest⟩ | hphase
  · left
    rw [hphase, hinjective hfound]
  · exact absurd hphase ((durable_of_reachable hs).found index place op put content hop hcall
      hreturned hput)
  · exact absurd hdigest (htombstone content)
  · exact Or.inr hphase

theorem Protected.alone {place : Nat} {put : Operation} (hput : s.Protected hash place put content)
    (hop : s.operations[index]? = some op) (hne : place ≠ index)
    (ht : t.operations = s.operations.set index { op with phase }) :
    t.Protected hash place put content := by
  have ht' : t.operations = (s.setPhase index op phase).operations := ht
  refine ⟨?_, hput.call, hput.quiet, ?_⟩
  · rw [ht', getElem?_setPhase hop, if_neg hne]
    exact hput.made
  · rw [noDeleteSince_iff]
    intro later other hlater hother
    rw [ht'] at hother
    obtain ⟨before, hbefore, hcall, -⟩ := exists_of_setPhase hop rfl hother
    rw [← hcall]
    exact noDeleteSince_iff.1 hput.since later before hlater hbefore

/-- A get after a put returns what was put when it is left alone. -/
theorem get_after_put_left_alone (hinjective : Function.Injective hash)
    (htombstone : ∀ content, hash content ≠ tombstone) (hs : (fileMachine B hash).Reachable s)
    {place : Nat} {put : Operation} (hput : s.Protected hash place put content)
    (hop : s.operations[index]? = some op) (hcall : op.call = .get (hash content))
    (hreturned : place ∈ op.returnedBefore) (hover : op.phase.isOver = false) :
    ∃ t, (fileMachine B hash).Path (Alone index) s t ∧
      t.operations[index]? = some { op with phase := .returned (some content) } := by
  obtain ⟨t, phase, hpath, hoperations, hphase, hfailed⟩ :=
    finishes_get hop hcall ((sound_of_reachable hs).calls index op hop) hover
  have ht : (fileMachine B hash).Reachable t := by
    refine hpath.preserves (fun u a v hu _ hmove => ?_) hs
    exact hu.extend ((Machine.Path.refl u).step trivial hmove)
  have hne : place ≠ index := by
    rintro rfl
    have hmade := hput.made
    rw [hop, Option.some.injEq] at hmade
    rw [hmade, hput.call] at hcall
    cases hcall
  have hmade : t.operations[index]? = some { op with phase } := by
    rw [hoperations, List.getElem?_set_self (List.getElem?_eq_some_iff.1 hop).1]
  refine ⟨t, hpath, ?_⟩
  rcases get_after_put hinjective htombstone ht (hput.alone hop hne hoperations) hmade hcall
    hreturned hphase with hend | hend
  · obtain rfl : phase = .returned (some content) := hend
    exact hmade
  · exact absurd hend hfailed

end Files

/-- In every run the files of the cache and of the backend are named by their digest; a get returns
the content that it was asked for or raises; and a get that is made after a put returned, where no
delete of the digest was running when the put began or was made since, ends with what was put
unless it is killed, and always comes to that end if it is left alone. -/
theorem files_named_by_digest (hinjective : Function.Injective hash)
    (htombstone : ∀ content, hash content ≠ tombstone) {s : Files B}
    (hs : (fileMachine B hash).Reachable s) :
    (∀ digest content, s.cache digest = some content → hash content = digest) ∧
    (∀ digest content, B.getFile s.store digest = some content → hash content = digest) ∧
    (∀ get ∈ s.operations, ∀ digest, get.call = .get digest → get.phase.isOver = true →
      (∃ content, get.phase = .returned (some content) ∧ hash content = digest) ∨
        get.phase = .notFound ∨ get.phase = .tombstoned ∨ get.phase = .failed) ∧
    (∀ (first later : Nat) (put get : Operation) (content : Bytes),
      s.operations[first]? = some put → put.call = .put content → put.quiet = true →
      s.operations[later]? = some get → get.call = .get (hash content) →
      first ∈ get.returnedBefore →
      Files.noDeleteSince s.operations first (hash content) = true →
      (get.phase.isOver = true → get.phase = .returned (some content) ∨ get.phase = .failed) ∧
      (get.phase.isOver = false → ∃ t, (fileMachine B hash).Path (Files.Alone later) s t ∧
        t.operations[later]? = some { get with phase := .returned (some content) })) := by
  have hsound := Files.sound_of_reachable hs
  refine ⟨hsound.addressed.cache, hsound.addressed.store, ?_, ?_⟩
  · intro get hget digest hcall hover
    obtain ⟨place, hplace⟩ := List.mem_iff_getElem?.1 hget
    rcases hsound.get_over hplace hcall hover with hreturned | hphase | ⟨hphase, -⟩ | hphase
    · exact Or.inl hreturned
    · simp [hphase]
    · simp [hphase]
    · simp [hphase]
  · intro first later put get content hput hcall hquiet hget hcall' hreturned hsince
    have hprotected : s.Protected hash first put content := ⟨hput, hcall, hquiet, hsince⟩
    exact ⟨Files.get_after_put hinjective htombstone hs hprotected hget hcall' hreturned,
      Files.get_after_put_left_alone hinjective htombstone hs hprotected hget hcall' hreturned⟩

/-! ### A put and a get of one letter -/

/-- A digest function that is right about the letter, and has no collisions. -/
def letterDigest (content : Bytes) : String :=
  if content = [97] then "86f7e437faa5a7fce15d1ddcb9eaeaea377667b8"
  else String.ofList ('+' :: content.map Char.ofUInt8)

theorem letterDigest_injective : Function.Injective letterDigest := by
  have hcode : Function.Injective Char.ofUInt8 := by
    intro first second h
    exact UInt8.toUInt32_inj.1 (congrArg Char.val h)
  have hplus : ∀ content : Bytes, "86f7e437faa5a7fce15d1ddcb9eaeaea377667b8" ≠
      String.ofList ('+' :: content.map Char.ofUInt8) := by
    intro content h
    have hhead := congrArg (fun digest => digest.toList.head?) h
    simp at hhead
  intro first second h
  unfold letterDigest at h
  split at h
  · split at h
    · simp_all
    · exact absurd h (hplus second)
  · split at h
    · exact absurd h.symm (hplus first)
    · have hlist := String.ofList_injective h
      rw [List.cons.injEq] at hlist
      exact List.map_injective_iff.2 hcode hlist.2

theorem letterDigest_ne_tombstone (content : Bytes) : letterDigest content ≠ tombstone := by
  intro h
  unfold letterDigest tombstone at h
  split at h
  · revert h
    decide
  · have hhead := congrArg (fun digest => digest.toList.head?) h
    simp at hhead

def letterStart : Files fsBackend := ⟨fun _ => none, fun _ => none, []⟩

theorem letterStart_init : (fileMachine fsBackend letterDigest).init letterStart := by
  refine ⟨rfl, ?_, ?_⟩
  · intro digest content h
    cases h
  · intro digest content h
    cases h

/-- The letter is put, as the first call. -/
def putLetter : List FileAction :=
  .begin (.put [97]) :: List.replicate 9 (.advance 0 0)

/-- The file of the cache is gone when the letter is asked for. -/
def letterAsked : Files fsBackend :=
  ((fileMachine fsBackend letterDigest).exec letterStart
    (putLetter ++ [.removeCached (letterDigest [97]), .begin (.get (letterDigest [97]))])).get
    (by decide +kernel)

theorem letterAsked_reachable : (fileMachine fsBackend letterDigest).Reachable letterAsked :=
  Machine.reachable_of_exec letterStart_init (Option.some_get _).symm

theorem files_named_by_digest_letter :
    (∀ digest content, letterAsked.cache digest = some content → letterDigest content = digest) ∧
    ∃ t, (fileMachine fsBackend letterDigest).Path (Files.Alone 1) letterAsked t ∧
      t.operations[1]? = some
        ⟨.get (letterDigest [97]), .returned (some [97]), true, [0]⟩ := by
  obtain ⟨hcache, -, -, hget⟩ := files_named_by_digest letterDigest_injective
    letterDigest_ne_tombstone letterAsked_reachable
  refine ⟨hcache, ?_⟩
  exact (hget 0 1 ⟨.put [97], .returned none, true, []⟩
    ⟨.get (letterDigest [97]), .looking, true, [0]⟩ [97] (by decide +kernel) rfl rfl
    (by decide +kernel) rfl (by decide) (by decide +kernel)).2 rfl

/-! ### A delete that was on its way -/

/-- A delete that was made before the second put of the letter ends after it. -/
def letterLost : Files fsBackend :=
  ((fileMachine fsBackend letterDigest).exec letterStart
    (putLetter ++
      [.begin (.delete (letterDigest [97])), .advance 1 0, .begin (.put [97])] ++
      List.replicate 5 (.advance 2 0) ++
      [.advance 1 0, .removeCached (letterDigest [97]), .begin (.get (letterDigest [97])),
        .advance 3 0, .advance 3 0])).get
    (by decide +kernel)

theorem letterLost_reachable : (fileMachine fsBackend letterDigest).Reachable letterLost :=
  Machine.reachable_of_exec letterStart_init (Option.some_get _).symm

/-- No delete was made after the second put began, and yet the letter is not found. -/
theorem get_not_found_after_put :
    (fileMachine fsBackend letterDigest).Reachable letterLost ∧
    ∃ put get, letterLost.operations[2]? = some put ∧ put.call = .put [97] ∧
      letterLost.operations[3]? = some get ∧ get.call = .get (letterDigest [97]) ∧
      2 ∈ get.returnedBefore ∧
      Files.noDeleteSince letterLost.operations 2 (letterDigest [97]) = true ∧
      get.phase = .notFound := by
  refine ⟨letterLost_reachable, ⟨.put [97], .returned none, false, [0]⟩,
    ⟨.get (letterDigest [97]), .notFound, true, [0, 1, 2]⟩, ?_⟩
  decide +kernel

end Db
end ContestManagement
