import ContestManagement.Lib.Sql

/-!
# Inner joins over finite tables

Queries that project the last table of a chain of joins
only ever look at its right column, so `joinRight` keeps that column.
-/

namespace ContestManagement
namespace Lib

variable {α β γ : Type*}

/-- The rows of `right` that some row of `left` is joined with, once for each
such pair. -/
def joinRight (on : α → β → Bool) (left : List α) (right : List β) : List β :=
  (innerJoin on left right).map Prod.snd

@[simp]
theorem mem_joinRight_iff {on : α → β → Bool} {left : List α} {right : List β} {b : β} :
    b ∈ joinRight on left right ↔ b ∈ right ∧ ∃ a ∈ left, on a b = true := by
  unfold joinRight
  rw [List.mem_map]
  constructor
  · rintro ⟨⟨a, b⟩, hmem, rfl⟩
    obtain ⟨ha, hb, hon⟩ := mem_innerJoin.1 hmem
    exact ⟨hb, a, ha, hon⟩
  · rintro ⟨hb, a, ha, hon⟩
    exact ⟨(a, b), mem_innerJoin.2 ⟨ha, hb, hon⟩, rfl⟩

/-- A query is rowwise when its answer is the union of its answers on the single
rows of its input table. -/
def Rowwise (query : List α → List β) : Prop :=
  ∀ table b, b ∈ query table ↔ ∃ a ∈ table, b ∈ query [a]

theorem Rowwise.id : Rowwise fun table : List α => table := by
  intro table b
  simp

/-- Joining one more table keeps a query rowwise. -/
theorem Rowwise.joinRight {query : List α → List β} (h : Rowwise query)
    (on : β → γ → Bool) (right : List γ) :
    Rowwise fun table => joinRight on (query table) right := by
  intro table c
  simp only [mem_joinRight_iff]
  constructor
  · rintro ⟨hc, b, hb, hon⟩
    obtain ⟨a, ha, hb'⟩ := (h table b).mp hb
    exact ⟨a, ha, hc, b, hb', hon⟩
  · rintro ⟨a, ha, hc, b, hb', hon⟩
    exact ⟨hc, b, (h table b).mpr ⟨a, ha, hb'⟩, hon⟩

/-- Projecting a column, with null values left out, keeps a query rowwise. -/
theorem Rowwise.filterMap {query : List α → List β} (h : Rowwise query) (f : β → Option γ) :
    Rowwise fun table => (query table).filterMap f := by
  intro table c
  simp only [List.mem_filterMap]
  constructor
  · rintro ⟨b, hb, hf⟩
    obtain ⟨a, ha, hb'⟩ := (h table b).mp hb
    exact ⟨a, ha, b, hb', hf⟩
  · rintro ⟨a, ha, b, hb', hf⟩
    exact ⟨b, (h table b).mpr ⟨a, ha, hb'⟩, hf⟩

theorem Rowwise.map {query : List α → List β} (h : Rowwise query) (f : β → γ) :
    Rowwise fun table => (query table).map f := by
  intro table c
  simpa only [List.filterMap_eq_map'] using h.filterMap (fun b => some (f b)) table c

theorem Rowwise.nil : Rowwise fun _ : List α => ([] : List β) := by
  intro table b
  simp

theorem Rowwise.append {query query' : List α → List β} (h : Rowwise query)
    (h' : Rowwise query') : Rowwise fun table => query table ++ query' table := by
  intro table b
  simp only [List.mem_append, h table b, h' table b]
  constructor
  · rintro (⟨a, ha, hb⟩ | ⟨a, ha, hb⟩)
    · exact ⟨a, ha, Or.inl hb⟩
    · exact ⟨a, ha, Or.inr hb⟩
  · rintro ⟨a, ha, hb | hb⟩
    · exact Or.inl ⟨a, ha, hb⟩
    · exact Or.inr ⟨a, ha, hb⟩

end Lib
end ContestManagement
