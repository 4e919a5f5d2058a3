import Mathlib.Data.List.Basic
import Mathlib.Tactic.Common

/-!
# Messages on a stream

Each message is followed by a separator of two symbols.  The reader takes all up to the next
separator, so it gets the messages back if no message has the first symbol of the separator.
-/

namespace ContestManagement
namespace Lib

variable {α : Type*}

/-- The stream of some messages. -/
def framed (first second : α) : List (List α) → List α
  | [] => []
  | message :: rest => message ++ first :: second :: framed first second rest

theorem framed_append (first second : α) (messages more : List (List α)) :
    framed first second (messages ++ more) =
      framed first second messages ++ framed first second more := by
  induction messages with
  | nil => rfl
  | cons message rest ih =>
      rw [List.cons_append, framed, framed, ih, List.append_assoc, List.cons_append,
        List.cons_append]

section Read

variable [DecidableEq α]

/-- The next message with its separator, and what follows; nothing while there is no separator. -/
def readUntil (first second : α) : List α → Option (List α × List α)
  | [] => none
  | [_] => none
  | a :: b :: stream =>
      if a = first ∧ b = second then some ([a, b], stream)
      else (readUntil first second (b :: stream)).map fun read => (a :: read.1, read.2)

theorem readUntil_cons_of_ne {first second a : α} (h : a ≠ first) {stream : List α}
    (hstream : stream ≠ []) : readUntil first second (a :: stream) =
      (readUntil first second stream).map fun read => (a :: read.1, read.2) := by
  cases stream with
  | nil => exact absurd rfl hstream
  | cons b rest => rw [readUntil, if_neg fun hboth => h hboth.1]

theorem readUntil_message {first second : α} {message : List α} (h : first ∉ message)
    (stream : List α) : readUntil first second (message ++ first :: second :: stream) =
      some (message ++ [first, second], stream) := by
  induction message with
  | nil => rw [List.nil_append, readUntil, if_pos ⟨rfl, rfl⟩, List.nil_append]
  | cons a rest ih =>
      rw [List.mem_cons, not_or] at h
      rw [List.cons_append, readUntil_cons_of_ne (Ne.symm h.1) (by simp), ih h.2, Option.map_some,
        List.cons_append]

/-- What is read from a stream of messages is the first of them. -/
theorem readUntil_framed {first second : α} {messages : List (List α)}
    (h : ∀ message ∈ messages, first ∉ message) {line rest : List α}
    (hread : readUntil first second (framed first second messages) = some (line, rest)) :
    ∃ message more, messages = message :: more ∧ line = message ++ [first, second] ∧
      rest = framed first second more := by
  cases messages with
  | nil => cases hread
  | cons message more =>
      rw [framed, readUntil_message (h message List.mem_cons_self)] at hread
      obtain ⟨rfl, rfl⟩ := Prod.mk.inj (Option.some.inj hread)
      exact ⟨message, more, rfl, rfl, rfl⟩

end Read

end Lib
end ContestManagement
