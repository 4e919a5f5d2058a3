import ContestManagement.Lib.PrefixCode
import ContestManagement.Service.ScoreOperations

/-!
# The ids of the entities

The ranking knows the users, teams, tasks and contests by their codenames, encoded by `encode_id`,
and the changes by a time, the id of their submission and a letter, written one after the other.

On the characters of a codename `encode_id` is a prefix code.  The ids of the changes are told apart
when their times have the same number of digits.
-/

namespace ContestManagement
namespace Service
namespace ScoreOperations

open Lib
open Grading.TaskScore (Submission)

/-! ## Codenames -/

/-- A character that the database allows in a codename. -/
def CodenameChar (c : Char) : Prop := c.isAlphanum = true ∨ c = '_' ∨ c = '-'

/-- `^[A-Za-z0-9_-]+$`. -/
structure IsCodename (codename : String) : Prop where
  not_empty : codename ≠ ""
  chars : ∀ c ∈ codename.toList, CodenameChar c

/-- What `encode_id` writes for a character. -/
def encodeChar (c : Char) : List Char :=
  if c.isAlphanum then [c] else '_' :: Nat.toDigits 16 c.toNat

theorem toList_encodeId (entityId : String) :
    (encodeId entityId).toList = entityId.toList.flatMap encodeChar := by
  rw [encodeId, String.toList_ofList]
  rfl

theorem encodeChar_of_alphanum {c : Char} (h : c.isAlphanum = true) : encodeChar c = [c] :=
  if_pos h

/-- The two characters that are escaped. -/
theorem encodeChar_of_not_alphanum {c : Char} (hchar : CodenameChar c)
    (h : ¬c.isAlphanum = true) : c = '_' ∧ encodeChar c = ['_', '5', 'f'] ∨
      c = '-' ∧ encodeChar c = ['_', '2', 'd'] := by
  rcases hchar with halphanum | rfl | rfl
  · exact absurd halphanum h
  · exact Or.inl ⟨rfl, by decide⟩
  · exact Or.inr ⟨rfl, by decide⟩

theorem eq_of_prefix_encodeChar {c d : Char} (hc : CodenameChar c) (hd : CodenameChar d)
    (h : encodeChar c <+: encodeChar d) : c = d := by
  -- The underscore that starts an escape is no letter and no digit.
  have hunderscore : ¬('_').isAlphanum = true := by decide
  by_cases hc' : c.isAlphanum = true
  · rw [encodeChar_of_alphanum hc'] at h
    by_cases hd' : d.isAlphanum = true
    · rw [encodeChar_of_alphanum hd', List.cons_prefix_cons] at h
      exact h.1
    · rcases encodeChar_of_not_alphanum hd hd' with ⟨-, hcode⟩ | ⟨-, hcode⟩
      · rw [hcode, List.cons_prefix_cons] at h
        exact absurd (h.1 ▸ hc') hunderscore
      · rw [hcode, List.cons_prefix_cons] at h
        exact absurd (h.1 ▸ hc') hunderscore
  · by_cases hd' : d.isAlphanum = true
    · rw [encodeChar_of_alphanum hd'] at h
      rcases encodeChar_of_not_alphanum hc hc' with ⟨-, hcode⟩ | ⟨-, hcode⟩
      · rw [hcode, List.cons_prefix_cons] at h
        exact absurd (h.1 ▸ hd') hunderscore
      · rw [hcode, List.cons_prefix_cons] at h
        exact absurd (h.1 ▸ hd') hunderscore
    · rcases encodeChar_of_not_alphanum hc hc' with ⟨rfl, hcode⟩ | ⟨rfl, hcode⟩
      · rcases encodeChar_of_not_alphanum hd hd' with ⟨rfl, -⟩ | ⟨rfl, hcode'⟩
        · rfl
        · rw [hcode, hcode'] at h
          exact absurd h (by decide)
      · rcases encodeChar_of_not_alphanum hd hd' with ⟨rfl, hcode'⟩ | ⟨rfl, -⟩
        · rw [hcode, hcode'] at h
          exact absurd h (by decide)
        · rfl

theorem encodeChar_ne_nil (c : Char) : encodeChar c ≠ [] := by
  unfold encodeChar
  split <;> simp

theorem encodeChar_prefixCode : PrefixCode (encodeChar '' {c | CodenameChar c}) where
  not_nil := by
    rintro ⟨c, -, hc⟩
    exact encodeChar_ne_nil c hc
  eq_of_prefix := by
    rintro _ ⟨c, hc, rfl⟩ _ ⟨d, hd, rfl⟩ hprefix
    rw [eq_of_prefix_encodeChar hc hd hprefix]

/-- Different codenames have different ids. -/
theorem encodeId_injective {codename codename' : String} (h : IsCodename codename)
    (h' : IsCodename codename') (hid : encodeId codename = encodeId codename') :
    codename = codename' := by
  have hchars : Set.InjOn encodeChar {c | CodenameChar c} := fun c hc d hd heq =>
    eq_of_prefix_encodeChar hc hd (heq ▸ List.prefix_rfl)
  have hlists : codename.toList.flatMap encodeChar = codename'.toList.flatMap encodeChar := by
    rw [← toList_encodeId, ← toList_encodeId, hid]
  exact String.toList_inj.1
    (encodeChar_prefixCode.flatMap_injective hchars h.chars h'.chars hlists)

theorem keyChar_of_alphanum {c : Char} (h : c.isAlphanum = true) :
    ('A' ≤ c ∧ c ≤ 'Z') ∨ ('a' ≤ c ∧ c ≤ 'z') ∨ ('0' ≤ c ∧ c ≤ '9') ∨ c = '_' := by
  rcases Bool.or_eq_true_iff.1 h with halpha | hdigit
  · rcases Bool.or_eq_true_iff.1 halpha with hupper | hlower
    · exact Or.inl (of_decide_eq_true hupper)
    · obtain ⟨hfirst, hlast⟩ := Bool.and_eq_true_iff.1 hlower
      exact Or.inr (Or.inl ⟨of_decide_eq_true hfirst, of_decide_eq_true hlast⟩)
  · obtain ⟨hfirst, hlast⟩ := Bool.and_eq_true_iff.1 hdigit
    exact Or.inr (Or.inr (Or.inl ⟨of_decide_eq_true hfirst, of_decide_eq_true hlast⟩))

/-- The stores of the ranking take the id of a codename as a key. -/
theorem validKey_encodeId {codename : String} (h : IsCodename codename) :
    Ranking.validKey (encodeId codename) = true := by
  rw [validKey_iff]
  constructor
  · intro hempty
    have hlist : codename.toList.flatMap encodeChar = [] := by
      rw [← toList_encodeId, hempty]
      rfl
    rw [List.flatMap_eq_nil_iff] at hlist
    cases hchars : codename.toList with
    | nil => exact h.not_empty (String.toList_eq_nil_iff.1 hchars)
    | cons c rest =>
        exact encodeChar_ne_nil c (hlist c (hchars ▸ List.mem_cons_self))
  · intro c hc
    rw [toList_encodeId, List.mem_flatMap] at hc
    obtain ⟨d, hd, hmem⟩ := hc
    by_cases halphanum : d.isAlphanum = true
    · rw [encodeChar_of_alphanum halphanum, List.mem_singleton] at hmem
      exact hmem ▸ keyChar_of_alphanum halphanum
    · have hescape : ∀ e ∈ ['_', '5', 'f'] ++ ['_', '2', 'd'], ('A' ≤ e ∧ e ≤ 'Z') ∨
          ('a' ≤ e ∧ e ≤ 'z') ∨ ('0' ≤ e ∧ e ≤ '9') ∨ e = '_' := by
        intro e he
        simp only [List.cons_append, List.nil_append, List.mem_cons, List.not_mem_nil,
          or_false] at he
        rcases he with rfl | rfl | rfl | rfl | rfl | rfl <;> decide
      rcases encodeChar_of_not_alphanum (h.chars d hd) halphanum with ⟨-, hcode⟩ | ⟨-, hcode⟩
      · exact hescape c (List.mem_append_left _ (hcode ▸ hmem))
      · exact hescape c (List.mem_append_right _ (hcode ▸ hmem))

/-! ## Changes -/

/-- A change that an operation carries. -/
inductive Change where
  | score (s : Submission)
  | token (s : Submission) (timestamp : ℚ)

namespace Change

def submission : Change → Submission
  | score s => s
  | token s _ => s

def isToken : Change → Bool
  | score _ => false
  | token _ _ => true

/-- The time of a change, in whole Unix seconds. -/
def seconds : Change → ℤ
  | score s => truncate s.timestamp
  | token _ timestamp => truncate timestamp

def operations (brokenContests : Finset Nat) (contest : Nat) (group : Namespace)
    (username : String) : Change → List (ProxyOperation PyValue)
  | score s => operationsForScore brokenContests contest group username s
  | token s timestamp => operationsForToken brokenContests contest group username s timestamp

/-- The letter at the end of an id. -/
def letter (c : Change) : String := if c.isToken then "t" else "s"

end Change

/-- The ids of the subchanges that some operations carry. -/
def subchangeIds (operations : List (ProxyOperation PyValue)) : List String :=
  operations.flatMap fun operation =>
    match operation.payload with
    | .entities .subchange data => data.keys
    | _ => []

theorem subchangeIds_operations {brokenContests : Finset Nat} {contest : Nat} {group : Namespace}
    {username id : String} {c : Change}
    (h : id ∈ subchangeIds (c.operations brokenContests contest group username)) :
    id = toString c.seconds ++ submissionId c.submission ++ c.letter := by
  cases c with
  | score s =>
      simp only [Change.operations, operationsForScore] at h
      split at h
      case isTrue => cases h
      case isFalse => exact List.mem_singleton.1 h
  | token s timestamp =>
      simp only [Change.operations, operationsForToken] at h
      split at h
      case isTrue => cases h
      case isFalse => exact List.mem_singleton.1 h

/-- The digits of a number, without its sign. -/
def digitCount (i : ℤ) : ℕ := (Nat.toDigits 10 i.natAbs).length

theorem toList_toString_natCast (n : ℕ) : (toString (n : ℤ)).toList = Nat.toDigits 10 n := by
  show n.repr.toList = _
  rw [Nat.toList_repr]

theorem toList_toString_negSucc (n : ℕ) :
    (toString (Int.negSucc n)).toList = '-' :: Nat.toDigits 10 (n + 1) := by
  show ("-" ++ (n + 1).repr).toList = _
  rw [String.toList_append, Nat.toList_repr]
  rfl

theorem toDigits_injective {m n : ℕ} (h : Nat.toDigits 10 m = Nat.toDigits 10 n) : m = n := by
  refine repr_injective (String.toList_inj.1 ?_)
  rw [Nat.toList_repr, Nat.toList_repr, h]

/-- A number that is not negative does not start with a sign. -/
theorem toDigits_append_ne_sign {n : ℕ} {rest rest' : List Char} :
    Nat.toDigits 10 n ++ rest ≠ '-' :: rest' := by
  intro h
  cases hdigits : Nat.toDigits 10 n with
  | nil => exact Nat.toDigits_ne_nil hdigits
  | cons c digits =>
      rw [hdigits, List.cons_append, List.cons.injEq] at h
      have hdigit : c.isDigit = true :=
        Nat.isDigit_of_mem_toDigits (by decide) (by decide) (hdigits ▸ List.mem_cons_self)
      rw [h.1] at hdigit
      exact absurd hdigit (by decide)

/-- Numbers with as many digits are told apart from what follows them. -/
theorem toString_append_injective {a b : ℤ} {rest rest' : List Char}
    (hdigits : digitCount a = digitCount b)
    (h : (toString a).toList ++ rest = (toString b).toList ++ rest') : a = b ∧ rest = rest' := by
  unfold digitCount at hdigits
  cases a with
  | ofNat m =>
      rw [Int.ofNat_eq_natCast, toList_toString_natCast] at h
      cases b with
      | ofNat n =>
          rw [Int.ofNat_eq_natCast, toList_toString_natCast] at h
          obtain ⟨hnumber, hrest⟩ := List.append_inj h hdigits
          exact ⟨congrArg Int.ofNat (toDigits_injective hnumber), hrest⟩
      | negSucc n =>
          rw [toList_toString_negSucc] at h
          exact absurd h toDigits_append_ne_sign
  | negSucc m =>
      rw [toList_toString_negSucc] at h
      cases b with
      | ofNat n =>
          rw [Int.ofNat_eq_natCast, toList_toString_natCast] at h
          exact absurd h.symm toDigits_append_ne_sign
      | negSucc n =>
          rw [toList_toString_negSucc, List.cons_append, List.cons_append, List.cons.injEq] at h
          obtain ⟨hnumber, hrest⟩ := List.append_inj h.2 hdigits
          have hsucc : m + 1 = n + 1 := toDigits_injective hnumber
          exact ⟨congrArg Int.negSucc (Nat.succ.inj hsucc), hrest⟩

/-- The id of a change, read from its end: the letter, the submission and the time. -/
theorem changeId_injective {c c' : Change} (hdigits : digitCount c.seconds = digitCount c'.seconds)
    (h : toString c.seconds ++ submissionId c.submission ++ c.letter =
      toString c'.seconds ++ submissionId c'.submission ++ c'.letter) :
    c.seconds = c'.seconds ∧ c.submission.id = c'.submission.id ∧ c.isToken = c'.isToken := by
  have hletter : ∀ c : Change, c.letter.toList.length = 1 := by
    intro c
    unfold Change.letter
    split <;> rfl
  have hlists := congrArg String.toList h
  simp only [String.toList_append] at hlists
  obtain ⟨hfront, hlast⟩ := List.append_inj' hlists (by rw [hletter, hletter])
  obtain ⟨hseconds, hsubmission⟩ := toString_append_injective hdigits hfront
  refine ⟨hseconds, repr_injective (String.toList_inj.1 hsubmission), ?_⟩
  unfold Change.letter at hlast
  cases hkind : c.isToken <;> cases hkind' : c'.isToken <;> simp [hkind, hkind'] at hlast ⊢

/-- Ids that are sent to a ranking do not collide: those of codenames are different, and keys that
its stores take; those of changes are equal only for the same second, submission and kind. -/
theorem entity_ids_distinct :
    (∀ codename codename', IsCodename codename → IsCodename codename' →
      codename ≠ codename' → encodeId codename ≠ encodeId codename') ∧
    (∀ codename, IsCodename codename → Ranking.validKey (encodeId codename) = true) ∧
    ∀ (brokenContests brokenContests' : Finset Nat) (contest contest' : Nat)
      (group group' : Namespace) (username username' : String) (c c' : Change) (id : String),
      digitCount c.seconds = digitCount c'.seconds →
        id ∈ subchangeIds (c.operations brokenContests contest group username) →
          id ∈ subchangeIds (c'.operations brokenContests' contest' group' username') →
            c.seconds = c'.seconds ∧ c.submission.id = c'.submission.id ∧
              c.isToken = c'.isToken := by
  refine ⟨fun codename codename' h h' hne hid => hne (encodeId_injective h h' hid),
    fun codename h => validKey_encodeId h, ?_⟩
  intro _ _ _ _ _ _ _ _ c c' id hdigits hid hid'
  exact changeId_injective hdigits
    ((subchangeIds_operations hid).symm.trans (subchangeIds_operations hid'))

end ScoreOperations
end Service
end ContestManagement
