import ContestManagement.Lib.Machine
import ContestManagement.Ranking.Visibility

/-!
# Streams of events and the view they were opened under

The clock goes on, the settings of the group are sent again and again, clients open streams of
events, and the server writes to them through the guard.  A stream that the guard cuts is gone;
each write that goes through is noted with the view at that moment.

A stream is stale once `lastChange` is after its opening.  A boundary that passes makes every
open stream stale, but an update of the settings can take it back: the new settings need not
have the boundary, and `changedAt` moves only if the old and the new settings show different
views at that moment.  An update on the clock reading at which a stream was opened does not
make it stale at all.  Without such updates no stream outlives its view.
-/

namespace ContestManagement
namespace Ranking

open Lib

/-- A write that went through. -/
structure Delivered where
  openedUnder : PublicView
  writtenUnder : PublicView
  deriving DecidableEq

/-- A group with its clock and its streams. -/
structure Group where
  now : ℚ
  state : VisibilityState
  streams : List Stream
  delivered : List Delivered
  deriving DecidableEq

inductive GroupOp
  | tick (now : ℚ)
  | putVisibility (data : PyValue)
  | openStream (request : Request)
  | write (stream : Nat)
  | leave (stream : Nat)

namespace Group

/-- The public view at the moment. -/
def view (g : Group) : PublicView :=
  g.state.settings.publicView g.now

variable (guard : VisibilityGuard)

/-- `guarded_write`: the stream ends, or the data goes out. -/
def write (g : Group) (i : Nat) : Option Group :=
  match g.streams[i]? with
  | none => none
  | some stream =>
      if guard.cut g.state stream g.now then some { g with streams := g.streams.eraseIdx i }
      else some { g with delivered := g.delivered ++ [⟨stream.view, g.view⟩] }

def step (g : Group) : GroupOp → Option Group
  | .tick now => if g.now ≤ now then some { g with now := now } else none
  | .putVisibility data =>
      match VisibilitySettings.parse data with
      | .ok settings => some { g with state := g.state.updateSettings settings g.now }
      | .error _ => some g
  | .openStream request =>
      match guard.openEvents g.state request g.now with
      | some stream => some { g with streams := g.streams ++ [stream] }
      | none => some g
  | .write i => g.write guard i
  | .leave i => some { g with streams := g.streams.eraseIdx i }

end Group

/-- The streams of a group, from the start of the server. -/
def streamMachine (guard : VisibilityGuard) : Machine Group GroupOp where
  init g := ∃ file secret now, g = ⟨now, VisibilityState.start file secret now, [], []⟩
  step := Group.step guard

section

variable (guard : VisibilityGuard)

/-- A write to a stream that was opened under another view is refused. -/
def EndsWithView (g : Group) : Prop :=
  ∀ stream ∈ g.streams, stream.view ≠ g.view → guard.cut g.state stream g.now = true

/-- New settings leave no stream open that was opened under another view than theirs: they
change the view after it was opened, or they have a boundary that passed since, or the view
changed since by an earlier update. -/
def HeedsStreams (g : Group) (settings : VisibilitySettings) : Prop :=
  ∀ stream ∈ g.streams, stream.view ≠ settings.publicView g.now →
    guard.barred { g.state with settings := settings } stream g.now = false →
    if settings.publicView g.now ≠ g.view then stream.openedAt < g.now
    else stream.openedAt < g.state.changedAt ∨
      ∃ t ∈ settings.boundaries, (t : ℚ) ≤ g.now ∧ stream.openedAt < (t : ℚ)

instance (g : Group) (settings : VisibilitySettings) :
    Decidable (HeedsStreams guard g settings) :=
  inferInstanceAs (Decidable (∀ stream ∈ g.streams, stream.view ≠ settings.publicView g.now →
    guard.barred { g.state with settings := settings } stream g.now = false →
    if settings.publicView g.now ≠ g.view then stream.openedAt < g.now
    else stream.openedAt < g.state.changedAt ∨
      ∃ t ∈ settings.boundaries, (t : ℚ) ≤ g.now ∧ stream.openedAt < (t : ℚ)))

/-- A step whose settings, if it has any, heed the streams. -/
def Heeds (g : Group) : GroupOp → Prop
  | .putVisibility data =>
      match VisibilitySettings.parse data with
      | .ok settings => HeedsStreams guard g settings
      | .error _ => True
  | _ => True

instance (g : Group) : (op : GroupOp) → Decidable (Heeds guard g op)
  | .putVisibility data =>
      match h : VisibilitySettings.parse data with
      | .ok settings => decidable_of_iff (HeedsStreams guard g settings) (by simp [Heeds, h])
      | .error _ => isTrue (by simp [Heeds, h])
  | .tick _ => isTrue trivial
  | .openStream _ => isTrue trivial
  | .write _ => isTrue trivial
  | .leave _ => isTrue trivial

end

namespace Group

variable {guard : VisibilityGuard} {g g' : Group}

/-- The streams were opened in the past, and no write went through under another view than
the one its stream was opened under. -/
structure Sound (guard : VisibilityGuard) (g : Group) : Prop where
  openedBefore : ∀ stream ∈ g.streams, stream.openedAt ≤ g.now
  endsWithView : EndsWithView guard g
  delivered : ∀ d ∈ g.delivered, d.openedUnder = d.writtenUnder

theorem Sound.eraseIdx (h : Sound guard g) (i : Nat) :
    Sound guard { g with streams := g.streams.eraseIdx i } where
  openedBefore stream hstream := h.openedBefore stream (List.mem_of_mem_eraseIdx hstream)
  endsWithView stream hstream := h.endsWithView stream (List.mem_of_mem_eraseIdx hstream)
  delivered := h.delivered

/-- As the clock goes on, the view stays the same or a boundary passes. -/
theorem Sound.tick (h : Sound guard g) {now : ℚ} (hnow : g.now ≤ now) :
    Sound guard { g with now := now } where
  openedBefore stream hstream := (h.openedBefore stream hstream).trans hnow
  endsWithView stream hstream hview := by
    have hopened := h.openedBefore stream hstream
    by_cases hcross : ∃ t ∈ g.state.settings.boundaries, (t : ℚ) ≤ now ∧ g.now < (t : ℚ)
    · obtain ⟨t, ht, hpassed, hafter⟩ := hcross
      rw [VisibilityGuard.cut_eq_true_iff]
      exact Or.inl (Or.inr ⟨t, ht, hpassed, hopened.trans_lt hafter⟩)
    · have hnone : ∀ t ∈ g.state.settings.boundaries, (t : ℚ) ≤ now → (t : ℚ) ≤ g.now :=
        fun t ht hpassed => not_lt.1 fun hafter => hcross ⟨t, ht, hpassed, hafter⟩
      have hsame : ({ g with now := now } : Group).view = g.view :=
        VisibilitySettings.publicView_eq hnow hnone
      rw [hsame] at hview
      exact VisibilityGuard.cut_of_le hopened hnow (h.endsWithView stream hstream hview)
  delivered := h.delivered

/-- After an update the streams end with their view if and only if the update heeds them. -/
theorem endsWithView_update_iff (settings : VisibilitySettings) :
    EndsWithView guard { g with state := g.state.updateSettings settings g.now } ↔
      HeedsStreams guard g settings := by
  have hview : ({ g with state := g.state.updateSettings settings g.now } : Group).view =
      settings.publicView g.now := rfl
  unfold EndsWithView HeedsStreams
  rw [hview]
  refine forall₃_congr fun stream _ _ => ?_
  have hbarred : guard.barred (g.state.updateSettings settings g.now) stream g.now =
      guard.barred { g.state with settings := settings } stream g.now := rfl
  rw [VisibilityGuard.cut_eq_true_iff, hbarred]
  have hsettings : (g.state.updateSettings settings g.now).settings = settings := rfl
  rw [hsettings]
  cases guard.barred { g.state with settings := settings } stream g.now with
  | true => simp
  | false =>
      simp only [or_false, forall_const, Bool.false_eq_true]
      by_cases hchanged : settings.publicView g.now ≠ g.view
      · -- Every boundary that passed did so by now.
        have hnow : (g.state.updateSettings settings g.now).changedAt = g.now := if_pos hchanged
        rw [if_pos hchanged, hnow, or_iff_left_iff_imp]
        rintro ⟨t, -, hpassed, hafter⟩
        exact hafter.trans_le hpassed
      · have hkept : (g.state.updateSettings settings g.now).changedAt = g.state.changedAt :=
          if_neg hchanged
        rw [if_neg hchanged, hkept]

theorem Sound.openStream (h : Sound guard g) {request : Request} {stream : Stream}
    (hopen : guard.openEvents g.state request g.now = some stream) :
    Sound guard { g with streams := g.streams ++ [stream] } := by
  have hstream : stream.openedAt = g.now ∧ stream.view = g.view := by
    unfold VisibilityGuard.openEvents at hopen
    dsimp only at hopen
    split at hopen
    case isTrue => cases hopen
    case isFalse =>
      split at hopen
      case isTrue => cases hopen
      case isFalse =>
        cases hopen
        exact ⟨rfl, rfl⟩
  refine ⟨fun other hother => ?_, fun other hother hview => ?_, h.delivered⟩
  · rcases List.mem_append.1 hother with hold | hnew
    · exact h.openedBefore other hold
    · rw [List.mem_singleton.1 hnew]
      exact hstream.1.le
  · rcases List.mem_append.1 hother with hold | hnew
    · exact h.endsWithView other hold hview
    · rw [List.mem_singleton.1 hnew] at hview
      exact absurd hstream.2 hview

/-- What goes out goes out under the view the stream was opened under. -/
theorem Sound.write (h : Sound guard g) {i : Nat} (hwrite : g.write guard i = some g') :
    Sound guard g' := by
  unfold Group.write at hwrite
  split at hwrite
  case h_1 => cases hwrite
  case h_2 stream hstream =>
    split at hwrite
    case isTrue =>
      cases hwrite
      exact h.eraseIdx i
    case isFalse hcut =>
      cases hwrite
      refine ⟨h.openedBefore, h.endsWithView, fun d hd => ?_⟩
      rcases List.mem_append.1 hd with hold | hnew
      · exact h.delivered d hold
      · rw [List.mem_singleton.1 hnew]
        by_contra hview
        exact hcut (h.endsWithView stream (List.mem_of_getElem? hstream) hview)

theorem step_sound {op : GroupOp} (h : Sound guard g) (hheeds : Heeds guard g op)
    (hstep : g.step guard op = some g') : Sound guard g' := by
  cases op with
  | tick now =>
      simp only [step] at hstep
      split at hstep
      case isTrue hnow =>
        cases hstep
        exact h.tick hnow
      case isFalse => cases hstep
  | putVisibility data =>
      simp only [step] at hstep
      simp only [Heeds] at hheeds
      split at hstep
      case h_1 settings hparse =>
        cases hstep
        rw [hparse] at hheeds
        exact ⟨h.openedBefore, (endsWithView_update_iff settings).2 hheeds, h.delivered⟩
      case h_2 =>
        cases hstep
        exact h
  | openStream request =>
      simp only [step] at hstep
      split at hstep
      case h_1 stream hopen =>
        cases hstep
        exact h.openStream hopen
      case h_2 =>
        cases hstep
        exact h
  | write i => exact h.write hstep
  | leave i =>
      cases hstep
      exact h.eraseIdx i

end Group

/-- In a run whose updates all heed the open streams, a stream that was opened under another
view than the one at the moment ends at its next write, and every event was delivered under the
view its stream was opened under.  An update that does not heed them leaves a stream open under
another view. -/
theorem streams_end_with_view (guard : VisibilityGuard) :
    (∀ g, (streamMachine guard).ReachableVia (Heeds guard) g →
      EndsWithView guard g ∧ ∀ d ∈ g.delivered, d.openedUnder = d.writtenUnder) ∧
    ∀ g op g', (streamMachine guard).step g op = some g' → ¬ Heeds guard g op →
      ¬ EndsWithView guard g' := by
  constructor
  · intro g hreach
    have hsound : Group.Sound guard g := by
      refine Machine.ReachableVia.invariant (I := Group.Sound guard) ?_ ?_ hreach
      · rintro g ⟨file, secret, now, rfl⟩
        exact ⟨by simp, by simp [EndsWithView], by simp⟩
      · intro g op g' hg hheeds hstep
        exact Group.step_sound hg hheeds hstep
    exact ⟨hsound.endsWithView, hsound.delivered⟩
  · intro g op g' hstep hheeds hends
    cases op with
    | putVisibility data =>
        simp only [streamMachine, Group.step] at hstep
        simp only [Heeds] at hheeds
        split at hstep
        case h_1 settings hparse =>
          cases hstep
          rw [hparse] at hheeds
          exact hheeds ((Group.endsWithView_update_iff settings).1 hends)
        case h_2 message hparse =>
          rw [hparse] at hheeds
          exact hheeds trivial
    | _ => exact hheeds trivial

/-- A group whose clients have no staff cookie, so that its value does not matter. -/
def publicGuard : VisibilityGuard := ⟨"group", fun _ _ _ => ""⟩

/-- The settings of a freeze. -/
def freezeData (freezeAt unfreezeAt : Option ℤ) : PyValue :=
  VisibilitySettings.toJson { freezeAt := freezeAt, unfreezeAt := unfreezeAt }

/-- A stream opened during a freeze, which ends. -/
def freezeRun : List GroupOp :=
  [.putVisibility (freezeData (some 100) (some 200)), .tick 195,
    .openStream ⟨none, none, none⟩, .write 0, .tick 201]

def newGroup : Group := ⟨0, VisibilityState.start .missing "00" 0, [], []⟩

/-- The end of the freeze is put off a little after it has passed. -/
def movedFreeze : Group :=
  ((streamMachine publicGuard).execVia (Heeds publicGuard) newGroup
    (freezeRun ++ [.putVisibility (freezeData (some 100) (some 201)), .write 0])).get
      (by decide +kernel)

theorem streams_end_with_view_moved :
    EndsWithView publicGuard movedFreeze ∧ movedFreeze.streams = [] ∧
      movedFreeze.delivered = [⟨.frozen (some 100), .frozen (some 100)⟩] := by
  have hpath : (streamMachine publicGuard).Path (Heeds publicGuard) newGroup movedFreeze :=
    Machine.path_of_execVia (Option.some_get _).symm
  obtain ⟨hends, -⟩ := (streams_end_with_view publicGuard).1 movedFreeze
    ⟨newGroup, ⟨.missing, "00", 0, rfl⟩, hpath⟩
  exact ⟨hends, by decide +kernel, by decide +kernel⟩

/-- The times of a freeze that is over are taken out of the settings. -/
def clearedFreeze : Group :=
  ((streamMachine publicGuard).exec newGroup
    (freezeRun ++ [.putVisibility (freezeData none none), .write 0])).get (by decide +kernel)

/-- A stream that was opened during the freeze gets an event of the live view. -/
theorem cleared_freeze_undetected :
    (streamMachine publicGuard).Reachable clearedFreeze ∧
      ¬ EndsWithView publicGuard clearedFreeze ∧
      (⟨.frozen (some 100), .live⟩ : Delivered) ∈ clearedFreeze.delivered := by
  refine ⟨Machine.reachable_of_exec ⟨.missing, "00", 0, rfl⟩ (Option.some_get _).symm, ?_,
    by decide +kernel⟩
  unfold EndsWithView
  decide +kernel

end Ranking
end ContestManagement
