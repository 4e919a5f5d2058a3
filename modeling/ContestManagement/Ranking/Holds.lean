import Mathlib.Data.List.Sort
import Mathlib.Data.Prod.Lex
import Mathlib.Data.String.Basic
import ContestManagement.Ranking.Replay

/-!
# What a score holds

`Holds sc subs chs mode` says that the score `sc` is that of the submissions `subs` and the
subchanges `chs` in a score mode: it has exactly them, the changes in the order of their time
and key, and its results are the replay of the changes.  Submissions and subchanges are
partial maps from keys here, as the stores give them for one user and one task.

Each callback of `Score` takes a score that holds something to one that holds the changed
maps; what a score holds determines its results.
-/

namespace ContestManagement
namespace Ranking

open Lib

/-! ## The order of the changes -/

/-- The time and the key of a change. -/
def changeRank (a : String × Subchange) : ℤ ×ₗ String := toLex (a.2.time, a.1)

theorem changeBefore_iff (a b : String × Subchange) :
    changeBefore a b = true ↔ changeRank a < changeRank b := by
  simp [changeBefore, changeRank, Prod.Lex.toLex_lt_toLex]

theorem changeBefore_total {a b : String × Subchange} (hne : a.1 ≠ b.1) :
    changeBefore a b = true ∨ changeBefore b a = true := by
  rw [changeBefore_iff, changeBefore_iff]
  refine lt_or_gt_of_ne fun heq => hne ?_
  have hpair : (a.2.time, a.1) = (b.2.time, b.1) := toLex.injective heq
  exact (Prod.ext_iff.1 hpair).2

theorem changeBefore_trans {a b c : String × Subchange} (hab : changeBefore a b = true)
    (hbc : changeBefore b c = true) : changeBefore a c = true := by
  rw [changeBefore_iff] at *
  exact hab.trans hbc

theorem not_changeBefore_self (a : String × Subchange) : ¬ changeBefore a a = true := by
  rw [changeBefore_iff]
  exact lt_irrefl _

/-- Changes in the order of their time and key. -/
def InOrder (changes : List (String × Subchange)) : Prop :=
  changes.Pairwise fun a b => changeBefore a b = true

instance (changes : List (String × Subchange)) : Decidable (InOrder changes) :=
  inferInstanceAs (Decidable (changes.Pairwise fun a b => changeBefore a b = true))

theorem InOrder.nodup {changes : List (String × Subchange)} (h : InOrder changes) :
    changes.Nodup := by
  refine List.Pairwise.imp ?_ h
  rintro a b hab rfl
  exact not_changeBefore_self a hab

/-- There is one order of the changes. -/
theorem InOrder.eq_of_mem_iff {changes others : List (String × Subchange)} (h : InOrder changes)
    (h' : InOrder others) (hmem : ∀ x, x ∈ changes ↔ x ∈ others) : changes = others := by
  have hperm : changes.Perm others := (List.perm_ext_iff_of_nodup h.nodup h'.nodup).2 hmem
  refine hperm.eq_of_pairwise ?_ h h'
  intro a b _ _ hab hba
  exact absurd (changeBefore_trans hab hba) (not_changeBefore_self a)

theorem mem_insertChange {change : String × Subchange} {changes : List (String × Subchange)}
    (hlater : ∃ c ∈ changes, changeBefore change c = true) (x : String × Subchange) :
    x ∈ insertChange change changes ↔ x = change ∨ x ∈ changes := by
  induction changes with
  | nil => simp at hlater
  | cons first rest ih =>
      unfold insertChange
      split
      case isTrue => simp
      case isFalse hnot =>
        have hrest : ∃ c ∈ rest, changeBefore change c = true := by
          obtain ⟨c, hc, hbefore⟩ := hlater
          rcases List.mem_cons.1 hc with rfl | hc
          · exact absurd hbefore hnot
          · exact ⟨c, hc, hbefore⟩
        rw [List.mem_cons, ih hrest, List.mem_cons]
        tauto

theorem InOrder.insertChange {change : String × Subchange} {changes : List (String × Subchange)}
    (h : InOrder changes) (hfresh : ∀ c ∈ changes, c.1 ≠ change.1)
    (hlater : ∃ c ∈ changes, changeBefore change c = true) :
    InOrder (Ranking.insertChange change changes) := by
  induction changes with
  | nil => exact h
  | cons first rest ih =>
      have hcons := List.pairwise_cons.1 h
      unfold Ranking.insertChange
      split
      case isTrue hbefore =>
        refine List.pairwise_cons.2 ⟨fun x hx => ?_, h⟩
        rcases List.mem_cons.1 hx with rfl | hx
        · exact hbefore
        · exact changeBefore_trans hbefore (hcons.1 x hx)
      case isFalse hnot =>
        have hrest : ∃ c ∈ rest, changeBefore change c = true := by
          obtain ⟨c, hc, hbefore⟩ := hlater
          rcases List.mem_cons.1 hc with rfl | hc
          · exact absurd hbefore hnot
          · exact ⟨c, hc, hbefore⟩
        refine List.pairwise_cons.2 ⟨fun x hx => ?_,
          ih hcons.2 (fun c hc => hfresh c (by simp [hc])) hrest⟩
        rcases (mem_insertChange hrest x).1 hx with rfl | hx
        · exact (changeBefore_total (hfresh first (by simp))).resolve_right hnot
        · exact hcons.1 x hx

/-- A change comes behind all the others when it comes behind the last one. -/
theorem InOrder.append {change : String × Subchange} {changes : List (String × Subchange)}
    (h : InOrder changes) (hlast : ∀ c ∈ changes.getLast?, changeBefore c change = true) :
    InOrder (changes ++ [change]) := by
  refine List.pairwise_append.2 ⟨h, List.pairwise_singleton _ _, fun x hx y hy => ?_⟩
  rw [List.mem_singleton] at hy
  subst hy
  rcases List.eq_nil_or_concat' changes with rfl | ⟨before, last, rfl⟩
  · cases hx
  · have hend : changeBefore last y = true := hlast last (by simp)
    rcases List.mem_append.1 hx with hx | hx
    · have hbefore := (List.pairwise_append.1 h).2.2 x hx last (by simp)
      exact changeBefore_trans hbefore hend
    · rw [List.mem_singleton] at hx
      exact hx ▸ hend

/-- A change keeps its place among the others when it is replaced. -/
def KeepsPlace (changes : List (String × Subchange)) (key : String) (old c : Subchange) : Prop :=
  ∀ other ∈ changes, other.1 ≠ key →
    (changeBefore other (key, old) = true ↔ changeBefore other (key, c) = true)

theorem InOrder.replace {changes : List (String × Subchange)} {key : String} {old c : Subchange}
    (h : InOrder changes) (hold : ∀ x ∈ changes, x.1 = key → x = (key, old))
    (hplace : KeepsPlace changes key old c) :
    InOrder (changes.map fun x => if x.1 = key then (key, c) else x) := by
  unfold InOrder
  rw [List.pairwise_map]
  refine List.Pairwise.imp_of_mem ?_ h
  intro a b ha hb hab
  by_cases hakey : a.1 = key
  · by_cases hbkey : b.1 = key
    · rw [hold a ha hakey, hold b hb hbkey] at hab
      exact absurd hab (not_changeBefore_self _)
    · rw [if_pos hakey, if_neg hbkey]
      rw [hold a ha hakey] at hab
      have hnot : ¬ changeBefore b (key, old) = true := fun hba =>
        not_changeBefore_self _ (changeBefore_trans hab hba)
      rw [hplace b hb hbkey] at hnot
      exact (changeBefore_total (a := (key, c)) (b := b) (Ne.symm hbkey)).resolve_right hnot
  · by_cases hbkey : b.1 = key
    · rw [if_neg hakey, if_pos hbkey]
      rw [hold b hb hbkey] at hab
      exact (hplace a ha hakey).1 hab
    · rw [if_neg hakey, if_neg hbkey]
      exact hab

/-! ## The score of some submissions and subchanges -/

/-- The score `sc` is that of the submissions `subs` and the subchanges `chs`. -/
structure Holds (sc : Score) (subs : String → Option Submission) (chs : String → Option Subchange)
    (mode : String) : Prop where
  canonical : sc.Canonical
  scoreMode : sc.scoreMode = mode
  submissions : ∀ key, (sc.submissions.get? key).map Scored.submission = subs key
  inOrder : InOrder sc.changes
  changes : ∀ key c, (key, c) ∈ sc.changes ↔ chs key = some c
  nonNeg : ∀ key c, chs key = some c → c.NonNeg

namespace Holds

variable {sc sc' : Score} {subs : String → Option Submission} {chs : String → Option Subchange}
  {mode : String} {key : String}

theorem changes_nonNeg (h : Holds sc subs chs mode) : ∀ change ∈ sc.changes, change.2.NonNeg :=
  fun change hmem => h.nonNeg change.1 change.2 ((h.changes _ _).1 hmem)

theorem get?_eq_none (h : Holds sc subs chs mode) (hnone : subs key = none) :
    sc.submissions.get? key = none := by
  have hkey := h.submissions key
  rw [hnone] at hkey
  exact Option.map_eq_none_iff.1 hkey

/-- Every subchange of a score belongs to one of its submissions. -/
theorem submission_of_change (h : Holds sc subs chs mode) {c : Subchange} (hc : chs key = some c) :
    ∃ s, subs c.submission = some s := by
  obtain ⟨s, hs⟩ := h.canonical.stored ((h.changes key c).2 hc)
  exact ⟨s.submission, by rw [← h.submissions, hs]; rfl⟩

/-- What a score holds determines its results. -/
theorem agree (h : Holds sc subs chs mode) (h' : Holds sc' subs chs mode) :
    sc'.changes = sc.changes ∧ sc'.history = sc.history ∧
      ∀ key, sc'.submissions.get? key = sc.submissions.get? key := by
  have hchanges : sc'.changes = sc.changes := by
    refine h'.inOrder.eq_of_mem_iff h.inOrder fun x => ?_
    rw [h'.changes x.1 x.2, h.changes x.1 x.2]
  have hmode : sc'.scoreMode = sc.scoreMode := h'.scoreMode.trans h.scoreMode.symm
  have hdata : ∀ key, (sc'.submissions.get? key).map Scored.submission =
      (sc.submissions.get? key).map Scored.submission := fun key => by
    rw [h'.submissions, h.submissions]
  have hpad := h.canonical.padded h'.canonical h.changes_nonNeg hchanges hmode hdata
  have hpad' := h'.canonical.padded h.canonical h'.changes_nonNeg hchanges.symm hmode.symm
    fun key => (hdata key).symm
  refine ⟨hchanges, hpad.history, fun key => ?_⟩
  cases hget : sc.submissions.get? key with
  | some s => exact hpad.kept key s hget
  | none =>
      rw [Option.eq_none_iff_forall_ne_some]
      intro s hs
      rw [hpad'.kept key s hs] at hget
      cases hget

/-- A score that a reset leads to. -/
theorem of_resetHistory (h : Holds sc subs chs mode) {next : Score} {subs' : String → Option Submission}
    {chs' : String → Option Subchange} (hreset : next.resetHistory = .ok sc')
    (hmode : next.scoreMode = sc.scoreMode)
    (hsubs : ∀ key, (next.submissions.get? key).map Scored.submission = subs' key)
    (horder : InOrder next.changes) (hchanges : ∀ key c, (key, c) ∈ next.changes ↔ chs' key = some c)
    (hnonNeg : ∀ key c, chs' key = some c → c.NonNeg) : Holds sc' subs' chs' mode := by
  have hcleared := Score.resetHistory_cleared hreset
  refine ⟨Score.canonical_of_resetHistory hreset, ?_, ?_, ?_, ?_, hnonNeg⟩
  · rw [Score.scoreMode_of_cleared hcleared, hmode, h.scoreMode]
  · intro key
    rw [Score.get?_of_cleared hcleared, hsubs]
  · rw [Score.changes_of_cleared hcleared]
    exact horder
  · rw [Score.changes_of_cleared hcleared]
    exact hchanges

theorem new (mode : String) : Holds (Score.new mode) (fun _ => none) (fun _ => none) mode := by
  refine ⟨rfl, rfl, fun _ => rfl, List.Pairwise.nil, ?_, ?_⟩
  · intro key c
    simp [Score.new]
  · intro key c hc
    cases hc

theorem createSubmission (h : Holds sc subs chs mode) (s : Submission) (hfresh : subs key = none) :
    Holds (sc.createSubmission key s) (Function.update subs key (some s)) chs mode := by
  refine ⟨h.canonical.createSubmission h.changes_nonNeg s (h.get?_eq_none hfresh), h.scoreMode,
    fun key' => ?_, h.inOrder, h.changes, h.nonNeg⟩
  simp only [Score.createSubmission, Dict.get?_set, Function.update_apply]
  split
  case isTrue => rfl
  case isFalse => exact h.submissions key'

theorem updateSubmission (h : Holds sc subs chs mode) {s : Submission}
    (hok : sc.updateSubmission key s = .ok sc') :
    Holds sc' (Function.update subs key (some s)) chs mode := by
  refine h.of_resetHistory hok rfl (fun key' => ?_) h.inOrder h.changes h.nonNeg
  simp only [Dict.get?_set, Function.update_apply]
  split
  case isTrue => rfl
  case isFalse => exact h.submissions key'

theorem deleteSubmission (h : Holds sc subs chs mode) (hok : sc.deleteSubmission key = .ok sc') :
    Holds sc' (Function.update subs key none)
      (fun k => (chs k).filter fun c => c.submission ≠ key) mode := by
  unfold Score.deleteSubmission at hok
  have hchanges : ∀ k c, (chs k).filter (fun c => c.submission ≠ key) = some c ↔
      chs k = some c ∧ c.submission ≠ key := by
    intro k c
    simp [Option.filter_eq_some_iff]
  cases hget : sc.submissions.get? key with
  | none =>
      simp only [hget, Except.ok.injEq] at hok
      subst hok
      have hnone : subs key = none := by rw [← h.submissions, hget]; rfl
      refine ⟨h.canonical, h.scoreMode, fun key' => ?_, h.inOrder, fun k c => ?_, fun k c hc => ?_⟩
      · rw [h.submissions, Function.update_apply]
        split
        case isTrue heq => rw [heq, hnone]
        case isFalse => rfl
      · -- No change belongs to a submission that the score does not have.
        rw [h.changes, hchanges]
        refine ⟨fun hc => ⟨hc, fun heq => ?_⟩, fun hc => hc.1⟩
        obtain ⟨s, hs⟩ := h.submission_of_change hc
        rw [heq, hnone] at hs
        cases hs
      · exact h.nonNeg k c ((hchanges k c).1 hc).1
  | some s =>
      simp only [hget] at hok
      refine h.of_resetHistory hok rfl (fun key' => ?_) (h.inOrder.sublist List.filter_sublist)
        (fun k c => ?_) (fun k c hc => h.nonNeg k c ((hchanges k c).1 hc).1)
      · simp only [Dict.get?_erase, Function.update_apply]
        split
        case isTrue => rfl
        case isFalse => exact h.submissions key'
      · rw [hchanges, List.mem_filter, h.changes]
        simp

theorem createSubchange (h : Holds sc subs chs mode) {c : Subchange} (hfresh : chs key = none)
    (hc : c.NonNeg) (hok : sc.createSubchange key c = .ok sc') :
    Holds sc' subs (Function.update chs key (some c)) mode := by
  have hkeys : ∀ x ∈ sc.changes, x.1 ≠ key := by
    intro x hx heq
    have hsome := (h.changes x.1 x.2).1 hx
    rw [heq, hfresh] at hsome
    cases hsome
  have hmem : ∀ key' c', (key', c') = (key, c) ∨ (key', c') ∈ sc.changes ↔
      Function.update chs key (some c) key' = some c' := by
    intro key' c'
    rw [Function.update_apply, h.changes, Prod.mk.injEq]
    split
    case isTrue heq => simp [heq, hfresh, eq_comm]
    case isFalse hne => simp [hne]
  have hnonNeg : ∀ key' c', Function.update chs key (some c) key' = some c' → c'.NonNeg := by
    intro key' c' hc'
    rw [← hmem] at hc'
    rcases hc' with heq | hc'
    · rw [Prod.mk.injEq] at heq
      exact heq.2 ▸ hc
    · exact h.changes_nonNeg _ hc'
  unfold Score.createSubchange at hok
  split at hok
  case isTrue hnewest =>
    have hcleared := Score.appendChange_cleared hok
    have hlast : ∀ last ∈ sc.changes.getLast?, changeBefore last (key, c) = true := by
      intro last hmem'
      unfold Score.isNewest at hnewest
      rwa [Option.mem_def.1 hmem'] at hnewest
    refine ⟨h.canonical.append hok, ?_, fun key' => ?_, ?_, fun key' c' => ?_, hnonNeg⟩
    · rw [Score.scoreMode_of_cleared hcleared, h.scoreMode]
    · rw [Score.get?_of_cleared hcleared]
      exact h.submissions key'
    · rw [Score.changes_of_cleared hcleared]
      exact h.inOrder.append hlast
    · rw [Score.changes_of_cleared hcleared, ← hmem, List.mem_append, List.mem_singleton]
      exact or_comm
  case isFalse hnot =>
    rw [bind_eq_ok_iff] at hok
    obtain ⟨mid, hreset, hlogged⟩ := hok
    have hmid : mid = sc' := by
      unfold Score.logged at hlogged
      split at hlogged
      case h_1 => exact Except.ok.inj hlogged
      case h_2 => cases hlogged
    subst hmid
    -- The change does not come behind the last one, so it comes before it.
    have hlater : ∃ x ∈ sc.changes, changeBefore (key, c) x = true := by
      unfold Score.isNewest at hnot
      cases hlast : sc.changes.getLast? with
      | none =>
          rw [hlast] at hnot
          exact absurd rfl hnot
      | some last =>
          rw [hlast] at hnot
          have hlastmem := List.mem_of_getLast? hlast
          exact ⟨last, hlastmem, (changeBefore_total (hkeys last hlastmem)).resolve_left hnot⟩
    refine h.of_resetHistory hreset rfl h.submissions (h.inOrder.insertChange hkeys hlater)
      (fun key' c' => ?_) hnonNeg
    rw [← hmem]
    exact mem_insertChange hlater _

theorem updateSubchange (h : Holds sc subs chs mode) {old c : Subchange} (hold : chs key = some old)
    (hplace : KeepsPlace sc.changes key old c) (hc : c.NonNeg)
    (hok : sc.updateSubchange key c = .ok sc') :
    Holds sc' subs (Function.update chs key (some c)) mode := by
  have hself : ∀ x ∈ sc.changes, x.1 = key → x = (key, old) := by
    rintro ⟨k, x⟩ hx rfl
    have hsome := (h.changes k x).1 hx
    rw [hold, Option.some.injEq] at hsome
    rw [hsome]
  have hmem : ∀ key' c', (key', c') ∈ (sc.changes.map fun x => if x.1 = key then (key, c) else x) ↔
      Function.update chs key (some c) key' = some c' := by
    intro key' c'
    rw [List.mem_map, Function.update_apply]
    constructor
    · rintro ⟨x, hx, heq⟩
      split at heq
      case isTrue =>
        rw [Prod.mk.injEq] at heq
        rw [if_pos heq.1.symm, heq.2]
      case isFalse hne =>
        subst heq
        rw [if_neg hne]
        exact (h.changes _ _).1 hx
    · intro hget
      split at hget
      case isTrue heq =>
        rw [Option.some.injEq] at hget
        exact ⟨(key, old), (h.changes _ _).2 hold, by rw [if_pos rfl, heq, hget]⟩
      case isFalse hne => exact ⟨(key', c'), (h.changes _ _).2 hget, if_neg hne⟩
  unfold Score.updateSubchange at hok
  rw [bind_eq_ok_iff] at hok
  obtain ⟨mid, hreset, hlogged⟩ := hok
  have hmid : mid = sc' := by
    unfold Score.logged at hlogged
    split at hlogged
    case h_1 => exact Except.ok.inj hlogged
    case h_2 => cases hlogged
  subst hmid
  refine h.of_resetHistory hreset rfl h.submissions (h.inOrder.replace hself hplace) hmem ?_
  intro key' c' hc'
  rw [Function.update_apply] at hc'
  split at hc'
  case isTrue =>
    rw [Option.some.injEq] at hc'
    exact hc' ▸ hc
  case isFalse => exact h.nonNeg key' c' hc'

theorem deleteSubchange (h : Holds sc subs chs mode) (hok : sc.deleteSubchange key = .ok sc') :
    Holds sc' subs (Function.update chs key none) mode := by
  have hmem : ∀ key' c', Function.update chs key none key' = some c' ↔
      chs key' = some c' ∧ key' ≠ key := by
    intro key' c'
    rw [Function.update_apply]
    split
    case isTrue heq => simp [heq]
    case isFalse hne => simp [hne]
  refine h.of_resetHistory hok rfl h.submissions (h.inOrder.sublist List.filter_sublist)
    (fun key' c' => ?_) fun key' c' hc' => h.nonNeg key' c' ((hmem key' c').1 hc').1
  rw [hmem, List.mem_filter, h.changes]
  simp

end Holds

end Ranking
end ContestManagement
