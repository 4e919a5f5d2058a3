import ContestManagement.Lib.Slots
import ContestManagement.Db.FileCacher

/-!
# The file cache is content-addressed

In every run a file of the cache, and a file of the backend, has the content of which its name is
the digest: a file comes under its name by one rename or one commit, when it is complete.  What a
put has stored stays in the backend as long as no delete of it is made, if none was on its way when
the put began.
-/

namespace ContestManagement
namespace Db

open Lib

namespace Copy

variable {c c' : Copy} {count : Nat}

theorem content_step (h : c.step count = some c') : c'.content = c.content := by
  unfold step at h
  split at h
  · rw [Option.some.injEq] at h
    subst h
    simp [content, List.append_assoc]
  · rename_i hbuffer
    rw [not_not] at hbuffer
    split at h
    · rw [Option.some.injEq] at h
      subst h
      simp [content, hbuffer]
    · cases h

/-- At the end of the file all of it is written. -/
theorem written_of_step_none (h : c.step count = none) : c.written = c.content := by
  unfold step at h
  split at h
  · cases h
  · rename_i hbuffer
    split at h
    · cases h
    · rename_i hrest
      rw [not_not] at hbuffer hrest
      simp [content, hbuffer, hrest]

/-- How much there is still to do. -/
def left (c : Copy) : Nat := 2 * c.rest.length + c.buffer.length

theorem left_step (h : c.step count = some c') : c'.left < c.left := by
  unfold step at h
  split at h
  · rename_i hbuffer
    rw [Option.some.injEq] at h
    subst h
    have hpos := List.length_pos_iff.2 hbuffer
    simp only [left, List.length_drop]
    omega
  · rename_i hbuffer
    rw [not_not] at hbuffer
    split at h
    · rename_i hrest
      rw [Option.some.injEq] at h
      subst h
      have hpos := List.length_pos_iff.2 hrest
      simp only [left, hbuffer, List.length_drop, List.length_take, List.length_nil]
      omega
    · cases h

@[simp] theorem content_ofFile (content : Bytes) : (ofFile content).content = content := by
  simp [ofFile, Copy.content]

end Copy

variable {B : Backend} {hash : Bytes → String}

/-! ## What the calls have in their hands -/

namespace Phase

/-- A load has, in part or as a whole, the file that it was asked for. -/
def LoadSound (hash : Bytes → String) (digest : String) (cacheOnly : Bool) : Phase → Prop
  | looking | requesting | notFound | failed => True
  | tombstoned => digest = tombstone
  | downloading copy => hash copy.content = digest
  | opening content | moving content => hash content = digest
  | returned (some content) => hash content = digest ∧ cacheOnly = false
  | returned none => cacheOnly = true
  | _ => False

/-- A put has what it was given. -/
def PutSound (content : Bytes) : Phase → Prop
  | reading copy => copy.content = content
  | creating temp | publishing temp => temp = content
  | uploading temp copy => temp = content ∧ copy.content = content
  | committing temp uploaded => temp = content ∧ uploaded = content
  | returned none | failed => True
  | _ => False

/-- Only a delete goes to the backend. -/
def RemoveSound (everywhere : Bool) : Phase → Prop
  | unlinking | returned none | failed => True
  | deleting => everywhere = true
  | _ => False

end Phase

/-- What a call has is right, at every phase. -/
def Call.Sound (hash : Bytes → String) : Call → Phase → Prop
  | .get digest => Phase.LoadSound hash digest false
  | .cacheFile digest => Phase.LoadSound hash digest true
  | .put content => Phase.PutSound content
  | .drop _ => Phase.RemoveSound false
  | .delete _ => Phase.RemoveSound true

namespace Call

theorem sound_start (call : Call) : call.Sound hash call.start := by
  cases call with
  | put content => exact Copy.content_ofFile content
  | _ => trivial

theorem sound_failed (call : Call) : call.Sound hash .failed := by
  cases call <;> trivial

end Call

/-- Every file is named by its digest. -/
structure Files.Addressed (hash : Bytes → String) (s : Files B) : Prop where
  cache : ∀ digest content, s.cache digest = some content → hash content = digest
  store : ∀ digest content, B.getFile s.store digest = some content → hash content = digest

namespace Files.Addressed

variable {s : Files B} {digest : String} {content : Bytes}

theorem update_cache (h : s.Addressed hash) (hcontent : hash content = digest) :
    ({ s with cache := Function.update s.cache digest (some content) } : Files B).Addressed hash := by
  refine ⟨fun other found hfound => ?_, h.store⟩
  by_cases hother : other = digest
  · dsimp only at hfound
    rw [hother, Function.update_self, Option.some.injEq] at hfound
    rw [hother, ← hfound, hcontent]
  · dsimp only at hfound
    rw [Function.update_of_ne hother] at hfound
    exact h.cache other found hfound

theorem remove_cache (h : s.Addressed hash) (digest : String) :
    ({ s with cache := Function.update s.cache digest none } : Files B).Addressed hash := by
  refine ⟨fun other found hfound => ?_, h.store⟩
  by_cases hother : other = digest
  · dsimp only at hfound
    rw [hother, Function.update_self] at hfound
    cases hfound
  · dsimp only at hfound
    rw [Function.update_of_ne hother] at hfound
    exact h.cache other found hfound

theorem commitFile (h : s.Addressed hash) (hcontent : hash content = digest) :
    ({ s with store := B.commitFile s.store digest content } : Files B).Addressed hash := by
  refine ⟨h.cache, fun other found hfound => ?_⟩
  dsimp only at hfound
  rw [B.getFile_commitFile] at hfound
  by_cases hother : other = digest
  · rw [if_pos hother, Option.some.injEq] at hfound
    rw [hother, ← hfound]
    cases hpresent : B.getFile s.store digest with
    | none => exact hcontent
    | some present => exact h.store digest present hpresent
  · rw [if_neg hother] at hfound
    exact h.store other found hfound

theorem delete (h : s.Addressed hash) (digest : String) :
    ({ s with store := B.delete s.store digest } : Files B).Addressed hash := by
  refine ⟨h.cache, fun other found hfound => ?_⟩
  dsimp only at hfound
  rw [B.getFile_delete] at hfound
  by_cases hother : other = digest
  · rw [if_pos hother] at hfound
    cases hfound
  · rw [if_neg hother] at hfound
    exact h.store other found hfound

theorem load (h : s.Addressed hash) {cacheOnly : Bool} {count : Nat} {phase phase' : Phase}
    {t : Files B} (hphase : phase.LoadSound hash digest cacheOnly)
    (hstep : s.load digest cacheOnly count phase = some (t, phase')) :
    t.Addressed hash ∧ phase'.LoadSound hash digest cacheOnly ∧ t.operations = s.operations := by
  cases phase with
  | looking =>
      unfold Files.load at hstep
      dsimp only at hstep
      split at hstep
      · rename_i htombstone
        cases hstep
        exact ⟨h, htombstone, rfl⟩
      · split at hstep
        · rename_i found hfound
          cases hstep
          refine ⟨h, ?_, rfl⟩
          cases cacheOnly with
          | false => exact ⟨h.cache digest found hfound, rfl⟩
          | true => rfl
        · cases hstep
          exact ⟨h, trivial, rfl⟩
  | requesting =>
      unfold Files.load at hstep
      dsimp only at hstep
      split at hstep
      · rename_i found hfound
        cases hstep
        refine ⟨h, ?_, rfl⟩
        rw [Phase.LoadSound, Copy.content_ofFile]
        exact h.store digest found hfound
      · cases hstep
        exact ⟨h, trivial, rfl⟩
  | downloading copy =>
      unfold Files.load at hstep
      dsimp only at hstep
      split at hstep
      · rename_i copy' hcopy
        cases hstep
        refine ⟨h, ?_, rfl⟩
        rw [Phase.LoadSound, Copy.content_step hcopy]
        exact hphase
      · rename_i hcopy
        cases hstep
        refine ⟨h, ?_, rfl⟩
        cases cacheOnly with
        | false =>
            change hash copy.written = digest
            rw [Copy.written_of_step_none hcopy]
            exact hphase
        | true =>
            change hash copy.written = digest
            rw [Copy.written_of_step_none hcopy]
            exact hphase
  | opening content =>
      cases hstep
      exact ⟨h, hphase, rfl⟩
  | moving content =>
      cases hstep
      refine ⟨h.update_cache hphase, ?_, rfl⟩
      cases cacheOnly with
      | false => exact ⟨hphase, rfl⟩
      | true => rfl
  | _ => cases hstep

theorem putFileFromFobj (h : s.Addressed hash) {count : Nat} {phase phase' : Phase} {t : Files B}
    (hphase : phase.PutSound content)
    (hstep : s.putFileFromFobj hash count phase = some (t, phase')) :
    t.Addressed hash ∧ phase'.PutSound content ∧ t.operations = s.operations := by
  cases phase with
  | reading copy =>
      unfold Files.putFileFromFobj at hstep
      dsimp only at hstep
      split at hstep
      · rename_i copy' hcopy
        cases hstep
        exact ⟨h, (Copy.content_step hcopy).trans hphase, rfl⟩
      · rename_i hcopy
        cases hstep
        exact ⟨h, (Copy.written_of_step_none hcopy).trans hphase, rfl⟩
  | creating temp =>
      unfold Files.putFileFromFobj at hstep
      dsimp only at hstep
      split at hstep
      · cases hstep
        exact ⟨h, hphase, rfl⟩
      · cases hstep
        exact ⟨h, ⟨hphase, (Copy.content_ofFile temp).trans hphase⟩, rfl⟩
  | uploading temp copy =>
      unfold Files.putFileFromFobj at hstep
      dsimp only at hstep
      split at hstep
      · rename_i copy' hcopy
        cases hstep
        exact ⟨h, ⟨hphase.1, (Copy.content_step hcopy).trans hphase.2⟩, rfl⟩
      · rename_i hcopy
        cases hstep
        exact ⟨h, ⟨hphase.1, (Copy.written_of_step_none hcopy).trans hphase.2⟩, rfl⟩
  | committing temp uploaded =>
      cases hstep
      obtain ⟨rfl, rfl⟩ := hphase
      exact ⟨h.commitFile rfl, rfl, rfl⟩
  | publishing temp =>
      cases hstep
      exact ⟨h.update_cache rfl, trivial, rfl⟩
  | _ => cases hstep

theorem remove (h : s.Addressed hash) {everywhere : Bool} {phase phase' : Phase} {t : Files B}
    (hstep : s.remove digest everywhere phase = some (t, phase')) :
    t.Addressed hash ∧ phase'.RemoveSound everywhere ∧ t.operations = s.operations := by
  cases phase with
  | unlinking =>
      unfold Files.remove at hstep
      dsimp only at hstep
      split at hstep
      · cases hstep
        exact ⟨h, trivial, rfl⟩
      · cases hstep
        refine ⟨h.remove_cache digest, ?_, rfl⟩
        cases everywhere <;> trivial
  | deleting =>
      cases hstep
      exact ⟨h.delete digest, trivial, rfl⟩
  | _ => cases hstep

/-- A step of a call leaves every file where its digest says. -/
theorem callStep (h : s.Addressed hash) {count : Nat} {call : Call} {phase phase' : Phase}
    {t : Files B} (hphase : call.Sound hash phase)
    (hstep : s.callStep hash count call phase = some (t, phase')) :
    t.Addressed hash ∧ call.Sound hash phase' ∧ t.operations = s.operations := by
  cases call with
  | get digest => exact h.load hphase hstep
  | cacheFile digest => exact h.load hphase hstep
  | put content => exact h.putFileFromFobj hphase hstep
  | drop digest => exact h.remove hstep
  | delete digest => exact h.remove hstep

end Files.Addressed

/-! ## The run -/

namespace Files

variable {s t : Files B} {index : Nat} {op : Operation} {phase : Phase}

theorem getElem?_setPhase (hop : s.operations[index]? = some op) (other : Nat) :
    (s.setPhase index op phase).operations[other]? =
      if other = index then some { op with phase } else s.operations[other]? :=
  Slots.getElem?_set_of_some hop

/-- All that a step can do. -/
theorem step_cases {a : FileAction} (h : s.step hash a = some t) :
    (∃ call, t = { s with operations := s.operations ++ [newOperation hash s.operations call] }) ∨
    (∃ index op count next phase, s.operations[index]? = some op ∧
      s.callStep hash count op.call op.phase = some (next, phase) ∧
      t = next.setPhase index op phase) ∨
    (∃ index op, s.operations[index]? = some op ∧ op.phase.isOver = false ∧
      t = s.setPhase index op .failed) ∨
    ∃ digest, t = { s with cache := Function.update s.cache digest none } := by
  cases a with
  | begin call =>
      cases h
      exact Or.inl ⟨call, rfl⟩
  | advance index count =>
      right
      left
      simp only [step] at h
      split at h
      · cases h
      · rename_i op hop
        obtain ⟨⟨next, phase⟩, hstep, rfl⟩ := Option.map_eq_some_iff.1 h
        exact ⟨index, op, count, next, phase, hop, hstep, rfl⟩
  | fail index =>
      right
      right
      left
      simp only [step] at h
      split at h
      · cases h
      · rename_i op hop
        split at h
        · cases h
        · rename_i hover
          cases h
          exact ⟨index, op, hop, by simpa using hover, rfl⟩
  | removeCached digest =>
      cases h
      exact Or.inr (Or.inr (Or.inr ⟨digest, rfl⟩))

/-- Every file is named by its digest, and the calls have what they should. -/
structure Sound (hash : Bytes → String) (s : Files B) : Prop where
  addressed : s.Addressed hash
  calls : ∀ (index : Nat) (op : Operation), s.operations[index]? = some op →
    op.call.Sound hash op.phase

theorem Addressed.congr {s t : Files B} (h : s.Addressed hash) (hcache : t.cache = s.cache)
    (hstore : t.store = s.store) : t.Addressed hash := by
  constructor
  · rw [hcache]
    exact h.cache
  · rw [hstore]
    exact h.store

theorem Sound.setPhase (h : s.Sound hash) (hop : s.operations[index]? = some op)
    (ht : t.Addressed hash) (hoperations : t.operations = s.operations)
    (hphase : op.call.Sound hash phase) : (t.setPhase index op phase).Sound hash := by
  rw [← hoperations] at hop
  refine ⟨ht.congr rfl rfl, fun other found hfound => ?_⟩
  rw [getElem?_setPhase hop] at hfound
  by_cases hother : other = index
  · rw [if_pos hother, Option.some.injEq] at hfound
    rw [← hfound]
    exact hphase
  · rw [if_neg hother, hoperations] at hfound
    exact h.calls other found hfound

theorem Sound.step {a : FileAction} (h : s.Sound hash) (hstep : s.step hash a = some t) :
    t.Sound hash := by
  rcases step_cases hstep with ⟨call, rfl⟩ | ⟨index, op, count, next, phase, hop, hnext, rfl⟩ |
    ⟨index, op, hop, -, rfl⟩ | ⟨digest, rfl⟩
  · refine ⟨h.addressed.congr rfl rfl, fun other found hfound => ?_⟩
    rcases List.mem_append.1 (List.mem_of_getElem? hfound) with hold | hnew
    · obtain ⟨place, hplace⟩ := List.mem_iff_getElem?.1 hold
      exact h.calls place found hplace
    · rw [List.mem_singleton] at hnew
      rw [hnew]
      exact Call.sound_start call
  · obtain ⟨haddressed, hphase, hoperations⟩ :=
      h.addressed.callStep (h.calls index op hop) hnext
    exact h.setPhase hop haddressed hoperations hphase
  · exact h.setPhase hop h.addressed rfl (Call.sound_failed op.call)
  · exact ⟨h.addressed.remove_cache digest, h.calls⟩

theorem sound_of_reachable (h : (fileMachine B hash).Reachable s) : s.Sound hash := by
  refine Machine.Reachable.invariant ?_ (fun _ _ _ hs hstep => hs.step hstep) h
  rintro start ⟨hoperations, hcache, hstore⟩
  refine ⟨⟨hcache, hstore⟩, fun index op hop => ?_⟩
  rw [hoperations] at hop
  cases hop

end Files

end Db
end ContestManagement
