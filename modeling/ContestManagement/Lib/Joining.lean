import Mathlib.Data.List.SplitBy
import Mathlib.Data.List.Induction
import Mathlib.Tactic.Common

/-!
# Pieces that join

A sequence of pieces where each piece either joins the one before it, and the two become one, or
stands on its own.  Whether two pieces join depends on the end of the first and on the start of the
second only, so the pieces may be put together in batches of any sizes: the result is that of putting
them together one by one, a piece for each maximal run of pieces that join.
-/

namespace ContestManagement
namespace Lib

/-- When pieces join, and what becomes of two that do. -/
structure Joining (α : Type*) where
  joins : α → α → Bool
  merge : α → α → α
  /-- The end of a merged piece is that of its second part. -/
  joins_merge : ∀ a b c, joins (merge a b) c = joins b c
  /-- Its start is that of its first part. -/
  joins_of_merge : ∀ a b c, joins a (merge b c) = joins a b
  merge_assoc : ∀ a b c, merge (merge a b) c = merge a (merge b c)

namespace Joining

variable {α : Type*} (J : Joining α)

/-- Put a piece behind the others. -/
def put (pieces : List α) (a : α) : List α :=
  match pieces.getLast? with
  | none => [a]
  | some x => if J.joins x a then pieces.dropLast ++ [J.merge x a] else pieces ++ [a]

/-- Put pieces behind the others, one by one. -/
def putAll (pieces added : List α) : List α := added.foldl J.put pieces

@[simp]
theorem put_nil (a : α) : J.put [] a = [a] := rfl

theorem put_concat (pieces : List α) (x a : α) :
    J.put (pieces ++ [x]) a =
      if J.joins x a then pieces ++ [J.merge x a] else pieces ++ [x] ++ [a] := by
  simp [put]

@[simp]
theorem putAll_nil (pieces : List α) : J.putAll pieces [] = pieces := rfl

theorem putAll_concat (pieces added : List α) (a : α) :
    J.putAll pieces (added ++ [a]) = J.put (J.putAll pieces added) a := by
  simp [putAll, List.foldl_append]

theorem putAll_append (pieces first second : List α) :
    J.putAll pieces (first ++ second) = J.putAll (J.putAll pieces first) second :=
  List.foldl_append

/-- A piece that joins another joins the same way before or after the other is put down. -/
theorem put_merge (pieces : List α) {x a : α} (h : J.joins x a = true) :
    J.put pieces (J.merge x a) = J.put (J.put pieces x) a := by
  induction pieces using List.reverseRecOn with
  | nil =>
      rw [J.put_nil, J.put_nil, ← List.nil_append [x], J.put_concat, if_pos h, List.nil_append]
  | append_singleton before y _ =>
      rw [J.put_concat, J.put_concat, J.joins_of_merge]
      by_cases hjoins : J.joins y x = true
      · rw [if_pos hjoins, if_pos hjoins, J.put_concat, J.joins_merge, if_pos h, J.merge_assoc]
      · rw [if_neg hjoins, if_neg hjoins, J.put_concat, if_pos h]

/-- A batch with one more piece. -/
theorem putAll_put (pieces batch : List α) (a : α) :
    J.putAll pieces (J.put batch a) = J.put (J.putAll pieces batch) a := by
  induction batch using List.reverseRecOn with
  | nil => rfl
  | append_singleton before x _ =>
      rw [J.put_concat, J.putAll_concat]
      by_cases h : J.joins x a = true
      · rw [if_pos h, J.putAll_concat, J.put_merge _ h]
      · rw [if_neg h, J.putAll_concat, J.putAll_concat]

/-! ## Runs -/

/-- The piece of a run. -/
def mergeRun (first : α) (rest : List α) : α := rest.foldl J.merge first

theorem joins_mergeRun (first : α) (rest : List α) (c : α) :
    J.joins (J.mergeRun first rest) c = J.joins ((first :: rest).getLast (by simp)) c := by
  induction rest using List.reverseRecOn with
  | nil => rfl
  | append_singleton before last _ =>
      have hrun : J.mergeRun first (before ++ [last]) = J.merge (J.mergeRun first before) last := by
        simp [mergeRun, List.foldl_append]
      rw [hrun, J.joins_merge]
      simp

/-- The piece of a run that is not empty. -/
def runPiece : List α → Option α
  | [] => none
  | first :: rest => some (J.mergeRun first rest)

/-- The pieces of the maximal runs of pieces that join. -/
def runs (pieces : List α) : List α := (pieces.splitBy J.joins).filterMap J.runPiece

/-- A run of pieces that join makes one piece. -/
theorem putAll_of_isChain (before : List α) {x first : α} {rest : List α}
    (hend : ∀ c, J.joins x c = J.joins first c)
    (hchain : (first :: rest).IsChain fun a b => J.joins a b) :
    J.putAll (before ++ [x]) rest = before ++ [J.mergeRun x rest] := by
  induction rest generalizing x first with
  | nil => rfl
  | cons second rest ih =>
      rw [List.isChain_cons_cons] at hchain
      have hjoins : J.joins x second = true := (hend second).trans hchain.1
      have hput : J.putAll (before ++ [x]) (second :: rest) =
          J.putAll (J.put (before ++ [x]) second) rest := rfl
      rw [hput, J.put_concat, if_pos hjoins]
      exact ih (J.joins_merge x second) hchain.2

/-- A piece that does not join the last one stands on its own. -/
theorem put_of_not_joins {before : List α} {a : α}
    (h : ∀ x ∈ before.getLast?, J.joins x a = false) : J.put before a = before ++ [a] := by
  induction before using List.reverseRecOn with
  | nil => rfl
  | append_singleton before x _ =>
      have hx : J.joins x a = false := h x (by simp)
      rw [J.put_concat, hx, if_neg Bool.false_ne_true]

/-- Runs that do not join each other. -/
theorem putAll_flatten {groups : List (List α)} (before : List α)
    (hbefore : ∀ x ∈ before.getLast?, ∀ group ∈ groups.head?, ∀ a ∈ group.head?,
      J.joins x a = false)
    (hne : [] ∉ groups) (hchain : ∀ group ∈ groups, group.IsChain fun a b => J.joins a b)
    (hcut : groups.IsChain fun a b => ∃ ha hb, J.joins (a.getLast ha) (b.head hb) = false) :
    J.putAll before groups.flatten = before ++ groups.filterMap J.runPiece := by
  induction groups generalizing before with
  | nil => simp
  | cons group groups ih =>
      cases group with
      | nil => exact absurd List.mem_cons_self hne
      | cons first rest =>
          have hput : J.put before first = before ++ [first] :=
            J.put_of_not_joins fun x hx => hbefore x hx _ rfl first rfl
          have hrun : J.putAll before (first :: rest) = before ++ [J.mergeRun first rest] := by
            have hstep : J.putAll before (first :: rest) = J.putAll (J.put before first) rest := rfl
            rw [hstep, hput]
            exact J.putAll_of_isChain before (fun _ => rfl) (hchain _ List.mem_cons_self)
          have hnext : ∀ x ∈ (before ++ [J.mergeRun first rest]).getLast?,
              ∀ group ∈ groups.head?, ∀ a ∈ group.head?, J.joins x a = false := by
            intro x hx group hgroup a ha
            rw [List.getLast?_concat, Option.mem_some_iff] at hx
            obtain ⟨_, hb, hfalse⟩ := (List.isChain_cons.mp hcut).1 group hgroup
            have hhead : group.head hb = a := List.head_of_mem_head? ha
            rw [← hx, J.joins_mergeRun, ← hhead]
            exact hfalse
          rw [List.flatten_cons, J.putAll_append, hrun,
            ih _ hnext (fun h => hne (List.mem_cons_of_mem _ h))
              (fun g hg => hchain g (List.mem_cons_of_mem _ hg)) hcut.tail,
            List.filterMap_cons_some (show J.runPiece (first :: rest) = _ from rfl),
            List.append_assoc, List.singleton_append]

/-- Putting pieces together makes a piece of each maximal run. -/
theorem putAll_nil_eq_runs (pieces : List α) : J.putAll [] pieces = J.runs pieces := by
  have h := @putAll_flatten α J (pieces.splitBy J.joins) [] (by simp)
    (List.nil_notMem_splitBy _ _) (fun _ => List.isChain_of_mem_splitBy)
    (List.isChain_getLast_head_splitBy _ _)
  rw [List.flatten_splitBy, List.nil_append] at h
  exact h

/-- The maximal runs of a list of images are the images of runs. -/
theorem splitBy_map {β : Type*} (f : β → α) (r : α → α → Bool) (l : List β) :
    (l.map f).splitBy r = (l.splitBy fun a b => r (f a) (f b)).map (List.map f) := by
  rw [List.splitBy_eq_iff]
  refine ⟨?_, ?_, ?_, ?_⟩
  · rw [← List.map_flatten, List.flatten_splitBy]
  · intro hnil
    obtain ⟨group, hgroup, hempty⟩ := List.mem_map.mp hnil
    exact List.ne_nil_of_mem_splitBy hgroup (List.map_eq_nil_iff.mp hempty)
  · intro group hgroup
    obtain ⟨source, hsource, rfl⟩ := List.mem_map.mp hgroup
    rw [List.isChain_map]
    exact List.isChain_of_mem_splitBy hsource
  · rw [List.isChain_map]
    refine (List.isChain_getLast_head_splitBy _ l).imp fun a b ⟨ha, hb, hcut⟩ => ?_
    refine ⟨by simpa using ha, by simpa using hb, ?_⟩
    rw [List.getLast_map, List.head_map]
    exact hcut

end Joining

end Lib
end ContestManagement
