import Mathlib.Data.Finset.Card
import Mathlib.Data.Fintype.Card
import Mathlib.Logic.Relation
import Mathlib.Tactic.Common

/-!
# A search with a list of what was found

The nodes are listed in the order in which they were found; those that are still to be looked at
are a suffix of the list.  When there are none left, the list has every node that can be reached,
once.
-/

namespace ContestManagement
namespace Lib
namespace Worklist

variable {α : Type*}

/-! ## What can be reached -/

/-- The nodes to which a path leads from a root. -/
def Reachable (next : α → List α) (roots : List α) (x : α) : Prop :=
  ∃ root ∈ roots, Relation.ReflTransGen (fun a b => b ∈ next a) root x

variable {next : α → List α} {roots : List α}

theorem Reachable.step {x y : α} (h : Reachable next roots x) (hy : y ∈ next x) :
    Reachable next roots y := by
  obtain ⟨root, hroot, hpath⟩ := h
  exact ⟨root, hroot, hpath.tail hy⟩

theorem Reachable.root {x : α} (h : x ∈ roots) : Reachable next roots x := ⟨x, h, .refl⟩

/-- What can be reached between renamed nodes is what can be reached, renamed. -/
theorem reachable_map_iff {β : Type*} {f : α → β} {next' : β → List β} {roots' : List β}
    (hroots : ∀ y, y ∈ roots' ↔ ∃ x ∈ roots, f x = y)
    (hnext : ∀ x, Reachable next roots x → ∀ y, y ∈ next' (f x) ↔ ∃ z ∈ next x, f z = y) {y : β} :
    Reachable next' roots' y ↔ ∃ x, Reachable next roots x ∧ f x = y := by
  constructor
  · rintro ⟨root, hroot, hpath⟩
    induction hpath with
    | refl =>
        obtain ⟨x, hx, rfl⟩ := (hroots root).1 hroot
        exact ⟨x, .root hx, rfl⟩
    | tail _ hstep ih =>
        obtain ⟨x, hx, rfl⟩ := ih
        obtain ⟨z, hz, rfl⟩ := (hnext x hx _).1 hstep
        exact ⟨z, hx.step hz, rfl⟩
  · rintro ⟨x, ⟨root, hroot, hpath⟩, rfl⟩
    induction hpath with
    | refl => exact .root ((hroots (f root)).2 ⟨root, hroot, rfl⟩)
    | tail hpath hstep ih => exact ih.step ((hnext _ ⟨root, hroot, hpath⟩ _).2 ⟨_, hstep, rfl⟩)

/-- Nodes that are done, and those that were found. -/
structure Searched (next : α → List α) (roots done found : List α) : Prop where
  nodup : found.Nodup
  isPrefix : done <+: found
  covers : ∀ x ∈ roots, x ∈ found
  reachable : ∀ x ∈ found, Reachable next roots x
  closed : ∀ x ∈ done, ∀ y ∈ next x, y ∈ found

/-- At the end exactly the nodes that can be reached are found. -/
theorem Searched.mem_iff {found : List α} (h : Searched next roots found found) {x : α} :
    x ∈ found ↔ Reachable next roots x := by
  refine ⟨h.reachable x, ?_⟩
  rintro ⟨root, hroot, hpath⟩
  induction hpath with
  | refl => exact h.covers root hroot
  | tail _ hstep ih => exact h.closed _ ih _ hstep

/-! ## The search -/

variable [DecidableEq α]

/-- Add to the end of a list the nodes that it has not. -/
def discover (found : List α) : List α → List α
  | [] => found
  | node :: rest => discover (if node ∈ found then found else found ++ [node]) rest

theorem discover_append (found first second : List α) :
    discover found (first ++ second) = discover (discover found first) second := by
  induction first generalizing found with
  | nil => rfl
  | cons node rest ih => exact ih _

theorem mem_discover {found nodes : List α} {x : α} :
    x ∈ discover found nodes ↔ x ∈ found ∨ x ∈ nodes := by
  induction nodes generalizing found with
  | nil => simp [discover]
  | cons node rest ih =>
      rw [discover, ih]
      by_cases h : node ∈ found
      · rw [if_pos h, List.mem_cons]
        constructor
        · rintro (hx | hx)
          · exact Or.inl hx
          · exact Or.inr (Or.inr hx)
        · rintro (hx | rfl | hx)
          · exact Or.inl hx
          · exact Or.inl h
          · exact Or.inr hx
      · rw [if_neg h, List.mem_append, List.mem_singleton, List.mem_cons, or_assoc]

theorem nodup_discover {found : List α} (h : found.Nodup) (nodes : List α) :
    (discover found nodes).Nodup := by
  induction nodes generalizing found with
  | nil => exact h
  | cons node rest ih =>
      rw [discover]
      by_cases hnode : node ∈ found
      · rw [if_pos hnode]
        exact ih h
      · rw [if_neg hnode]
        refine ih (List.nodup_append.2 ⟨h, List.nodup_singleton node, ?_⟩)
        intro x hx y hy
        rw [List.mem_singleton] at hy
        rw [hy]
        rintro rfl
        exact hnode hx

/-- What was found stays where it is. -/
theorem prefix_discover (found nodes : List α) : found <+: discover found nodes := by
  induction nodes generalizing found with
  | nil => exact List.prefix_refl found
  | cons node rest ih =>
      rw [discover]
      refine List.IsPrefix.trans ?_ (ih _)
      by_cases hnode : node ∈ found
      · rw [if_pos hnode]
      · rw [if_neg hnode]
        exact List.prefix_append found [node]

/-- The place of a node does not change. -/
theorem idxOf_of_prefix {found more : List α} (h : found <+: more) {x : α} (hx : x ∈ found) :
    more.idxOf x = found.idxOf x := by
  obtain ⟨rest, rfl⟩ := h
  exact List.idxOf_append_of_mem hx

theorem Searched.start (next : α → List α) (roots : List α) :
    Searched next roots [] (discover [] roots) := by
  refine ⟨nodup_discover List.nodup_nil roots, List.nil_prefix, ?_, ?_, ?_⟩
  · intro x hx
    exact mem_discover.2 (Or.inr hx)
  · intro x hx
    rcases mem_discover.1 hx with hnil | hroot
    · cases hnil
    · exact .root hroot
  · intro x hx
    cases hx

/-- The next node is looked at. -/
theorem Searched.step {done found rest : List α} {x : α} (h : Searched next roots done found)
    (hfound : found = done ++ x :: rest) :
    Searched next roots (done ++ [x]) (discover found (next x)) := by
  have hx : x ∈ found := by
    rw [hfound]
    simp
  refine ⟨nodup_discover h.nodup _, ?_, ?_, ?_, ?_⟩
  · refine List.IsPrefix.trans ?_ (prefix_discover found _)
    exact ⟨rest, by rw [hfound, List.append_assoc]; rfl⟩
  · intro y hy
    exact mem_discover.2 (Or.inl (h.covers y hy))
  · intro y hy
    rcases mem_discover.1 hy with hold | hnew
    · exact h.reachable y hold
    · exact (h.reachable x hx).step hnew
  · intro y hy z hz
    rcases List.mem_append.1 hy with hold | hnew
    · exact mem_discover.2 (Or.inl (h.closed y hold z hz))
    · rw [List.mem_singleton] at hnew
      subst hnew
      exact mem_discover.2 (Or.inr hz)

end Worklist
end Lib
end ContestManagement
