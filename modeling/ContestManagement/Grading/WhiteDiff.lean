import ContestManagement.Lib.Lines

/-!
# White diff

`_white_diff` of `cms/grading/steps/whitediff.py`: two files, as streams of bytes, are read line by
line, side by side, until a line differs or both are at their end.
-/

namespace ContestManagement
namespace Grading

open Lib

/-! ## Lines in canonical form -/

/-- `_WHITES`: blank, tab, newline, vertical tab, form feed and carriage return. -/
def whites : List UInt8 := [0x20, 0x09, 0x0a, 0x0b, 0x0c, 0x0d]

/-- `_WHITES[0]`. -/
def space : UInt8 := 0x20

def newline : UInt8 := 0x0a

/-- `string.replace(char, _WHITES[0])` for each other white. -/
def replaceWhites (string : List UInt8) : List UInt8 :=
  (whites.drop 1).foldl (fun string char => string.map fun b => if b = char then space else b) string

/-- The tokens of a string, without the empty ones. -/
def tokensOf (string : List UInt8) : List (List UInt8) :=
  ((replaceWhites string).splitOn space).filter fun x => 0 < x.length

/-- `_white_diff_canonicalize`. -/
def whiteDiffCanonicalize (string : List UInt8) : List UInt8 :=
  [space].intercalate (tokensOf string)

/-- `string.strip(b''.join(_WHITES))`. -/
def stripWhites (string : List UInt8) : List UInt8 :=
  (string.dropWhile (· ∈ whites)).rdropWhile (· ∈ whites)

/-! ## Messages -/

/-- `LENGTH_LIMIT`. -/
def lengthLimit : Nat := 100

/-- A line that is too long is cut, and three dots follow. -/
def cutLine (line : List UInt8) : List UInt8 :=
  if lengthLimit < line.length then line.take lengthLimit ++ [0x2e, 0x2e, 0x2e] else line

/-- `\xNN` with two digits. -/
def escapeByte (b : UInt8) : List Char :=
  ['\\', 'x', Nat.digitChar (b.toNat / 16), Nat.digitChar (b.toNat % 16)]

/-- `decode("utf-8", errors='backslashreplace')`; the first `skipped` bytes belong to the
character before them. -/
def decodeBackslashReplace : Nat → List UInt8 → List Char
  | _, [] => []
  | skipped + 1, _ :: bytes => decodeBackslashReplace skipped bytes
  | 0, b :: bytes =>
      match (b :: bytes).toByteArray.utf8DecodeChar? 0 with
      | some c => c :: decodeBackslashReplace (c.utf8Size - 1) bytes
      | none => escapeByte b ++ decodeBackslashReplace 0 bytes

/-- A line as the message shows it: PostgreSQL stores no NUL. -/
def shownLine (line : List UInt8) : String :=
  String.ofList ((decodeBackslashReplace 0 (cutLine line)).flatMap fun c =>
    if c = '\x00' then "\\x00".toList else [c])

/-! ## The comparison -/

/-- The number of lines read so far, and what is left of the two files. -/
structure DiffState where
  line : Nat
  output : List UInt8
  res : List UInt8

/-- One iteration of `_white_diff`: the result, or the state before the next iteration. -/
def whiteDiffStep (s : DiffState) : (Bool × Option String) ⊕ DiffState :=
  let (lout, output) := readLine newline s.output
  let (lres, res) := readLine newline s.res
  let line := s.line + 1
  if lres.length = 0 ∧ lout.length = 0 then .inl (true, none)
  else if lres.length = 0 ∨ lout.length = 0 then
    let lout := stripWhites lout
    let lres := stripWhites lres
    if 0 < lout.length then .inl (false, some "Contestant output too long")
    else if 0 < lres.length then .inl (false, some "Contestant output too short")
    else .inr ⟨line, output, res⟩
  else
    let lout := whiteDiffCanonicalize lout
    let lres := whiteDiffCanonicalize lres
    if lout ≠ lres then
      let expected := shownLine lres
      let found := shownLine lout
      .inl (false, some s!"Expected `{expected}`, found `{found}` on line {line}")
    else .inr ⟨line, output, res⟩

/-- The loop of `_white_diff`, for so many iterations; `none` where it has not ended. -/
def whiteDiffLoop : Nat → DiffState → Option (Bool × Option String)
  | 0, _ => none
  | fuel + 1, s =>
      match whiteDiffStep s with
      | .inl verdict => some verdict
      | .inr next => whiteDiffLoop fuel next

/-- `_white_diff(output, res)` returns the verdict and the message. -/
def WhiteDiff (output res : List UInt8) (verdict : Bool × Option String) : Prop :=
  ∃ fuel, whiteDiffLoop fuel ⟨0, output, res⟩ = some verdict

/-! ## What the comparison decides -/

/-- The lines of a file in canonical form, without the blank ones at its end. -/
def canonicalLines (file : List UInt8) : List (List UInt8) :=
  ((linesOf newline file).map whiteDiffCanonicalize).rdropWhile (· = [])

/-! ### Blank lines -/

theorem foldl_replace {α : Type*} [DecidableEq α] {chars : List α} {by_ : α} (h : by_ ∉ chars)
    (string : List α) :
    chars.foldl (fun string char => string.map fun b => if b = char then by_ else b) string =
      string.map fun b => if b ∈ chars then by_ else b := by
  induction chars generalizing string with
  | nil => simp
  | cons char chars ih =>
      rw [List.mem_cons, not_or] at h
      rw [List.foldl_cons, ih h.2, List.map_map]
      apply List.map_congr_left
      intro b _
      by_cases hb : b = char
      · simp [hb, h.2]
      · simp [hb]

theorem replaceWhites_eq_map (string : List UInt8) :
    replaceWhites string = string.map fun b => if b ∈ whites then space else b := by
  rw [replaceWhites, foldl_replace (by decide)]
  apply List.map_congr_left
  intro b _
  have hmem : b ∈ whites ↔ b = space ∨ b ∈ whites.drop 1 := List.mem_cons
  by_cases hb : b = space
  · simp [hb]
  · simp [hmem, hb]

/-- There are no tokens in a string of separators. -/
theorem filter_splitOn_eq_nil_iff {α : Type*} [DecidableEq α] {separator : α} {string : List α} :
    ((string.splitOn separator).filter fun x => 0 < x.length) = [] ↔
      ∀ b ∈ string, b = separator := by
  induction string with
  | nil => simp
  | cons b string ih =>
      rw [List.splitOn_cons_eq_if_modifyHead, List.forall_mem_cons]
      by_cases hb : b = separator
      · simp only [hb, beq_self_eq_true, if_true, true_and, ← ih]
        simp
      · obtain ⟨token, more, hsplit⟩ :=
          List.exists_cons_of_ne_nil (List.splitOn_ne_nil separator string)
        simp [hb, hsplit]

theorem tokensOf_eq_nil_iff {string : List UInt8} :
    tokensOf string = [] ↔ ∀ b ∈ string, b ∈ whites := by
  rw [tokensOf, filter_splitOn_eq_nil_iff, replaceWhites_eq_map, List.forall_mem_map]
  apply forall₂_congr
  intro b _
  by_cases hb : b ∈ whites
  · simp [hb]
  · have hne : b ≠ space := by
      rintro rfl
      exact hb (by decide)
    simp [hb, hne]

theorem intercalate_eq_nil_iff {α : Type*} {separator : List α} {tokens : List (List α)}
    (h : ∀ x ∈ tokens, x ≠ []) : separator.intercalate tokens = [] ↔ tokens = [] := by
  cases tokens with
  | nil => simp [List.intercalate]
  | cons token more =>
      have hne := h token (by simp)
      cases more with
      | nil => simpa [List.intercalate] using hne
      | cons token' more => simp [List.intercalate, hne]

/-- A line is blank when it has whites only. -/
theorem whiteDiffCanonicalize_eq_nil_iff {string : List UInt8} :
    whiteDiffCanonicalize string = [] ↔ ∀ b ∈ string, b ∈ whites := by
  rw [whiteDiffCanonicalize, intercalate_eq_nil_iff, tokensOf_eq_nil_iff]
  intro x hx
  have hpos := (List.mem_filter.1 hx).2
  rintro rfl
  simp at hpos

theorem stripWhites_eq_nil_iff {string : List UInt8} :
    stripWhites string = [] ↔ ∀ b ∈ string, b ∈ whites := by
  rw [stripWhites, List.rdropWhile_eq_nil_iff]
  constructor
  · intro h
    have hnil : string.dropWhile (· ∈ whites) = [] := by
      by_contra hne
      have hhead := List.head_dropWhile_not (fun b => decide (b ∈ whites)) hne
      rw [h _ (List.head_mem hne)] at hhead
      cases hhead
    simpa using List.dropWhile_eq_nil_iff.1 hnil
  · intro h b hb
    simpa using h b ((List.dropWhile_sublist _).subset hb)

/-! ### One iteration -/

/-- The canonical lines of a file begin with its first line, be it blank or at the end. -/
theorem canonicalLines_eq (file : List UInt8) :
    canonicalLines file = (whiteDiffCanonicalize (readLine newline file).1 ::
      (linesOf newline (readLine newline file).2).map whiteDiffCanonicalize).rdropWhile (· = []) := by
  by_cases hfile : file = []
  · subst hfile
    decide
  · rw [canonicalLines, linesOf_eq_cons newline hfile, List.map_cons]

/-- Files whose first lines agree are equal when the rest of them is. -/
theorem canonicalLines_eq_iff {output res : List UInt8}
    (h : whiteDiffCanonicalize (readLine newline output).1 =
      whiteDiffCanonicalize (readLine newline res).1) :
    canonicalLines output = canonicalLines res ↔
      canonicalLines (readLine newline output).2 = canonicalLines (readLine newline res).2 := by
  rw [canonicalLines_eq output, canonicalLines_eq res, h]
  exact rdropWhile_cons_eq_iff

theorem canonicalLines_ne {output res : List UInt8}
    (h : whiteDiffCanonicalize (readLine newline output).1 ≠
      whiteDiffCanonicalize (readLine newline res).1) :
    canonicalLines output ≠ canonicalLines res := by
  rw [canonicalLines_eq output, canonicalLines_eq res]
  intro heq
  apply h
  apply eq_of_rdropWhile_cons_eq _ heq
  intro hout hres
  rw [decide_eq_true_iff] at hout hres
  rw [hout, hres]

/-- An iteration ends at the end of both files, or when the lines it reads differ. -/
theorem whiteDiffStep_cases (line : Nat) (output res : List UInt8) :
    (output = [] ∧ res = [] ∧ whiteDiffStep ⟨line, output, res⟩ = .inl (true, none)) ∨
      (whiteDiffCanonicalize (readLine newline output).1 ≠
          whiteDiffCanonicalize (readLine newline res).1 ∧
        ∃ message, whiteDiffStep ⟨line, output, res⟩ = .inl (false, some message)) ∨
      (¬(output = [] ∧ res = []) ∧
        whiteDiffCanonicalize (readLine newline output).1 =
          whiteDiffCanonicalize (readLine newline res).1 ∧
        whiteDiffStep ⟨line, output, res⟩ =
          .inr ⟨line + 1, (readLine newline output).2, (readLine newline res).2⟩) := by
  have hblank : ∀ string : List UInt8,
      0 < (stripWhites string).length ↔ whiteDiffCanonicalize string ≠ [] := by
    intro string
    rw [List.length_pos_iff, not_iff_not, stripWhites_eq_nil_iff, whiteDiffCanonicalize_eq_nil_iff]
  have hnil : whiteDiffCanonicalize [] = [] := by decide
  simp only [whiteDiffStep, List.length_eq_zero_iff, readLine_eq_nil_iff, hblank]
  by_cases hout : output = []
  · by_cases hres : res = []
    · simp [hout, hres]
    · subst hout
      rw [readLine_nil]
      by_cases hline : whiteDiffCanonicalize (readLine newline res).1 = []
      · simp [hres, hnil, hline]
      · simp [hres, hnil, hline, Ne.symm hline]
  · by_cases hres : res = []
    · subst hres
      rw [readLine_nil]
      by_cases hline : whiteDiffCanonicalize (readLine newline output).1 = []
      · simp [hout, hnil, hline]
      · simp [hout, hnil, hline]
    · by_cases hline : whiteDiffCanonicalize (readLine newline output).1 =
        whiteDiffCanonicalize (readLine newline res).1
      · simp [hout, hres, hline]
      · simp [hout, hres, hline]

/-! ### The whole loop -/

theorem whiteDiffLoop_mono {fuel fuel' : Nat} {s : DiffState} {verdict : Bool × Option String}
    (hle : fuel ≤ fuel') (h : whiteDiffLoop fuel s = some verdict) :
    whiteDiffLoop fuel' s = some verdict := by
  induction fuel generalizing fuel' s with
  | zero => cases h
  | succ fuel ih =>
      obtain ⟨more, rfl⟩ : ∃ more, fuel' = more + 1 := ⟨fuel' - 1, by omega⟩
      rw [whiteDiffLoop] at h ⊢
      cases hstep : whiteDiffStep s with
      | inl found =>
          rw [hstep] at h
          exact h
      | inr next =>
          rw [hstep] at h
          exact ih (by omega) h

/-- What is left of the two files. -/
def DiffState.left (s : DiffState) : Nat := s.output.length + s.res.length

/-- The loop ends when both files are read, with the verdict on what was left of them. -/
theorem whiteDiffLoop_decides {fuel : Nat} {s : DiffState} (h : s.left < fuel) :
    ∃ verdict, whiteDiffLoop fuel s = some verdict ∧
      (verdict.1 = true ↔ canonicalLines s.output = canonicalLines s.res) := by
  induction fuel generalizing s with
  | zero => omega
  | succ fuel ih =>
      obtain ⟨line, output, res⟩ := s
      rw [whiteDiffLoop]
      rcases whiteDiffStep_cases line output res with
        ⟨rfl, rfl, hstep⟩ | ⟨hne, message, hstep⟩ | ⟨hleft, heq, hstep⟩
      · rw [hstep]
        exact ⟨_, rfl, by simp⟩
      · rw [hstep]
        exact ⟨_, rfl, by simp [canonicalLines_ne hne]⟩
      · rw [hstep]
        have hlt : DiffState.left ⟨line + 1, (readLine newline output).2,
            (readLine newline res).2⟩ < fuel := by
          have hout := length_readLine_le newline output
          have hres := length_readLine_le newline res
          simp only [DiffState.left] at h ⊢
          by_cases hnil : output = []
          · have hlt := length_readLine_lt newline fun hres => hleft ⟨hnil, hres⟩
            omega
          · have hlt := length_readLine_lt newline hnil
            omega
        obtain ⟨verdict, hloop, hverdict⟩ := ih hlt
        exact ⟨verdict, hloop, hverdict.trans (canonicalLines_eq_iff heq).symm⟩

/-- The verdict on two files does not depend on the number of iterations. -/
theorem whiteDiff_true_iff {output res : List UInt8} :
    (∃ message, WhiteDiff output res (true, message)) ↔
      canonicalLines output = canonicalLines res := by
  obtain ⟨verdict, hloop, hverdict⟩ :=
    @whiteDiffLoop_decides (output.length + res.length + 1) ⟨0, output, res⟩ (by
      simp only [DiffState.left]
      omega)
  constructor
  · rintro ⟨message, fuel, hfuel⟩
    have hmore := whiteDiffLoop_mono (Nat.le_max_left fuel (output.length + res.length + 1)) hfuel
    rw [whiteDiffLoop_mono (Nat.le_max_right fuel (output.length + res.length + 1)) hloop,
      Option.some.injEq] at hmore
    exact hverdict.1 (by rw [hmore])
  · intro heq
    obtain ⟨success, message⟩ := verdict
    have htrue : success = true := hverdict.2 heq
    subst htrue
    exact ⟨message, _, hloop⟩

/-- White diff ends on every two files, says that they are equal when their lines in canonical form
are, up to blank ones at the end, and so is an equivalence relation. -/
theorem white_diff_decides :
    (∀ output res : List UInt8, ∃ verdict : Bool × Option String,
      (∀ fuel, output.length + res.length < fuel →
        whiteDiffLoop fuel ⟨0, output, res⟩ = some verdict) ∧
      (verdict.1 = true ↔ canonicalLines output = canonicalLines res)) ∧
    Equivalence fun output res : List UInt8 => ∃ message, WhiteDiff output res (true, message) := by
  constructor
  · intro output res
    obtain ⟨verdict, hloop, hverdict⟩ :=
      @whiteDiffLoop_decides (output.length + res.length + 1) ⟨0, output, res⟩ (by
        simp only [DiffState.left]
        omega)
    exact ⟨verdict, fun fuel hfuel => whiteDiffLoop_mono hfuel hloop, hverdict⟩
  · constructor
    · intro output
      exact whiteDiff_true_iff.2 rfl
    · intro output res h
      exact whiteDiff_true_iff.2 (whiteDiff_true_iff.1 h).symm
    · intro output res other h h'
      exact whiteDiff_true_iff.2 ((whiteDiff_true_iff.1 h).trans (whiteDiff_true_iff.1 h'))

end Grading
end ContestManagement
