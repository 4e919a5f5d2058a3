import Mathlib.Data.Set.Function
import Mathlib.InformationTheory.Coding.UniquelyDecodable

/-!
# Prefix codes

A code of which no word starts with another one is read from the left in one way only, although its
words have different lengths and nothing stands between them.
-/

namespace ContestManagement
namespace Lib

variable {α β : Type*}

/-- No word of the code is empty, and none starts with another one. -/
structure PrefixCode (S : Set (List β)) : Prop where
  not_nil : [] ∉ S
  eq_of_prefix : ∀ v ∈ S, ∀ w ∈ S, v <+: w → v = w

namespace PrefixCode

variable {S : Set (List β)}

/-- Texts that start with two words of the code start with the same word. -/
theorem eq_of_append (h : PrefixCode S) {v w rest rest' : List β} (hv : v ∈ S) (hw : w ∈ S)
    (happend : v ++ rest = w ++ rest') : v = w := by
  have hprefixes : v <+: w ∨ w <+: v :=
    List.prefix_or_prefix_of_prefix ⟨rest, happend⟩ ⟨rest', rfl⟩
  rcases hprefixes with hprefix | hprefix
  · exact h.eq_of_prefix v hv w hw hprefix
  · exact (h.eq_of_prefix w hw v hv hprefix).symm

theorem uniquelyDecodable (h : PrefixCode S) : InformationTheory.UniquelyDecodable S := by
  -- By induction on the words of the first text.
  intro words
  induction words with
  | nil =>
      intro words' _ hwords' hflatten
      cases words' with
      | nil => rfl
      | cons w rest' =>
          rw [List.flatten_nil, List.flatten_cons, eq_comm, List.append_eq_nil_iff] at hflatten
          exact absurd (hflatten.1 ▸ hwords' w List.mem_cons_self) h.not_nil
  | cons v rest ih =>
      intro words' hwords hwords' hflatten
      have hv : v ∈ S := hwords v List.mem_cons_self
      cases words' with
      | nil =>
          rw [List.flatten_nil, List.flatten_cons, List.append_eq_nil_iff] at hflatten
          exact absurd (hflatten.1 ▸ hv) h.not_nil
      | cons w rest' =>
          rw [List.flatten_cons, List.flatten_cons] at hflatten
          have hfirst : v = w := h.eq_of_append hv (hwords' w List.mem_cons_self) hflatten
          subst hfirst
          have hrest : rest = rest' :=
            ih rest' (fun u hu => hwords u (List.mem_cons_of_mem v hu))
              (fun u hu => hwords' u (List.mem_cons_of_mem v hu)) (List.append_cancel_left hflatten)
          rw [hrest]

/-- A text written letter by letter in a prefix code gives its letters back. -/
theorem flatMap_injective {f : α → List β} {s : Set α} (h : PrefixCode (f '' s))
    (hf : Set.InjOn f s) {xs ys : List α} (hxs : ∀ a ∈ xs, a ∈ s) (hys : ∀ a ∈ ys, a ∈ s)
    (hcode : xs.flatMap f = ys.flatMap f) : xs = ys := by
  have hwords : xs.map f = ys.map f := by
    refine h.uniquelyDecodable _ _ (fun w hw => ?_) (fun w hw => ?_) ?_
    · obtain ⟨a, ha, rfl⟩ := List.mem_map.1 hw
      exact Set.mem_image_of_mem f (hxs a ha)
    · obtain ⟨a, ha, rfl⟩ := List.mem_map.1 hw
      exact Set.mem_image_of_mem f (hys a ha)
    · rw [← List.flatMap_def, ← List.flatMap_def, hcode]
  clear hcode
  induction xs generalizing ys with
  | nil => exact (List.map_eq_nil_iff.1 hwords.symm).symm
  | cons a rest ih =>
      cases ys with
      | nil => cases hwords
      | cons b rest' =>
          rw [List.map_cons, List.map_cons, List.cons.injEq] at hwords
          have hletter : a = b :=
            hf (hxs a List.mem_cons_self) (hys b List.mem_cons_self) hwords.1
          have hrest : rest = rest' :=
            ih (fun c hc => hxs c (List.mem_cons_of_mem a hc))
              (fun c hc => hys c (List.mem_cons_of_mem b hc)) hwords.2
          rw [hletter, hrest]

end PrefixCode

end Lib
end ContestManagement
