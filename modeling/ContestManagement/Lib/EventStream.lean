import Mathlib.Data.List.Basic

/-!
# Event streams

The event stream format of the W3C specification of server-sent events: a stream is read line by
line, a line is a field with a name and a value, and an empty line dispatches an event.  Texts are
lists of characters; the encoding of characters is left out.
-/

namespace ContestManagement
namespace Lib

abbrev Text : Type := List Char

/-! ## Lines between line breaks -/

/-- Put a character in front of the first line. -/
def consLine (c : Char) : List Text → List Text
  | [] => [[c]]
  | line :: more => (c :: line) :: more

/-- The lines of a text, between line breaks: CRLF, LF or CR. -/
def breakLines : Text → List Text
  | [] => [[]]
  | c :: text =>
      -- the LF of a CRLF breaks the line
      if c = '\r' ∧ text.head? = some '\n' then breakLines text
      else if c = '\r' ∨ c = '\n' then [] :: breakLines text
      else consLine c (breakLines text)

/-- A text with each line break turned into LF. -/
def normalizeBreaks : Text → Text
  | [] => []
  | c :: text =>
      if c = '\r' ∧ text.head? = some '\n' then normalizeBreaks text
      else (if c = '\r' then '\n' else c) :: normalizeBreaks text

/-- Lines that end with LF, one after the other. -/
def endLines (lines : List Text) : Text :=
  lines.flatMap (· ++ ['\n'])

/-- A line break has no place in a line. -/
def Unbroken (line : Text) : Prop := '\r' ∉ line ∧ '\n' ∉ line

theorem breakLines_crlf (text : Text) :
    breakLines ('\r' :: '\n' :: text) = [] :: breakLines text := by
  rw [breakLines, if_pos ⟨rfl, rfl⟩, breakLines, if_neg (by simp), if_pos (Or.inr rfl)]

theorem breakLines_break {c : Char} {text : Text} (hc : c = '\r' ∨ c = '\n')
    (h : ¬(c = '\r' ∧ text.head? = some '\n')) :
    breakLines (c :: text) = [] :: breakLines text := by
  rw [breakLines, if_neg h, if_pos hc]

theorem breakLines_plain {c : Char} {text : Text} (hc : ¬(c = '\r' ∨ c = '\n')) :
    breakLines (c :: text) = consLine c (breakLines text) := by
  rw [breakLines, if_neg fun h => hc (Or.inl h.1), if_neg hc]

theorem breakLines_ne_nil (text : Text) : breakLines text ≠ [] := by
  induction text with
  | nil => simp [breakLines]
  | cons c text ih =>
      rw [breakLines]
      split
      · exact ih
      · split
        · simp
        · cases h : breakLines text with
          | nil => exact absurd h ih
          | cons line more => simp [consLine]

theorem Unbroken.tail {c : Char} {line : Text} (h : Unbroken (c :: line)) : Unbroken line :=
  ⟨fun hr => h.1 (List.mem_cons_of_mem c hr), fun hn => h.2 (List.mem_cons_of_mem c hn)⟩

theorem Unbroken.head {c : Char} {line : Text} (h : Unbroken (c :: line)) :
    ¬(c = '\r' ∨ c = '\n') := by
  rintro (hc | hc)
  · exact h.1 (by rw [hc]; exact List.mem_cons_self)
  · exact h.2 (by rw [hc]; exact List.mem_cons_self)

theorem Unbroken.append {line line' : Text} (h : Unbroken line) (h' : Unbroken line') :
    Unbroken (line ++ line') := by
  unfold Unbroken at *
  simp only [List.mem_append, not_or]
  exact ⟨⟨h.1, h'.1⟩, h.2, h'.2⟩

/-- A line that ends with LF is the first one. -/
theorem breakLines_append {line : Text} (h : Unbroken line) (rest : Text) :
    breakLines (line ++ '\n' :: rest) = line :: breakLines rest := by
  induction line with
  | nil =>
      exact breakLines_break (Or.inr rfl) (by simp)
  | cons c line ih =>
      rw [List.cons_append, breakLines_plain h.head, ih h.tail]
      rfl

/-- Lines that end with LF are read back, with an empty one at the end. -/
theorem breakLines_endLines {lines : List Text} (h : ∀ line ∈ lines, Unbroken line) :
    breakLines (endLines lines) = lines ++ [[]] := by
  induction lines with
  | nil => rfl
  | cons line more ih =>
      have hmore : ∀ line ∈ more, Unbroken line := fun l hl => h l (List.mem_cons_of_mem line hl)
      rw [endLines, List.flatMap_cons, List.append_assoc, List.singleton_append,
        breakLines_append (h line List.mem_cons_self), List.cons_append]
      exact congrArg (line :: ·) (ih hmore)

theorem endLines_inj {lines lines' : List Text} (h : ∀ line ∈ lines, Unbroken line)
    (h' : ∀ line ∈ lines', Unbroken line) : endLines lines = endLines lines' ↔ lines = lines' := by
  constructor
  · intro heq
    have hbreak := congrArg breakLines heq
    rw [breakLines_endLines h, breakLines_endLines h'] at hbreak
    exact List.append_cancel_right hbreak
  · intro heq
    rw [heq]

theorem unbroken_of_mem_breakLines {text line : Text} (h : line ∈ breakLines text) :
    Unbroken line := by
  induction text generalizing line with
  | nil =>
      rw [breakLines, List.mem_singleton] at h
      rw [h]
      exact ⟨List.not_mem_nil, List.not_mem_nil⟩
  | cons c text ih =>
      rw [breakLines] at h
      split at h
      · exact ih h
      · split at h
        · rcases List.mem_cons.1 h with hline | hline
          · rw [hline]
            exact ⟨List.not_mem_nil, List.not_mem_nil⟩
          · exact ih hline
        · rename_i hc
          cases hlines : breakLines text with
          | nil => exact absurd hlines (breakLines_ne_nil text)
          | cons first more =>
              rw [hlines, consLine] at h
              rw [hlines] at ih
              rcases List.mem_cons.1 h with hline | hline
              · have hfirst := ih List.mem_cons_self
                rw [hline]
                unfold Unbroken at hfirst ⊢
                simp only [List.mem_cons, not_or]
                exact ⟨⟨fun hr => hc (Or.inl hr.symm), hfirst.1⟩,
                  fun hn => hc (Or.inr hn.symm), hfirst.2⟩
              · exact ih (List.mem_cons_of_mem first hline)

/-- The lines of a text, each ended with LF, are the text with its line breaks turned into LF. -/
theorem endLines_breakLines (text : Text) :
    endLines (breakLines text) = normalizeBreaks text ++ ['\n'] := by
  induction text with
  | nil => rfl
  | cons c text ih =>
      rw [breakLines, normalizeBreaks]
      by_cases hcrlf : c = '\r' ∧ text.head? = some '\n'
      · rw [if_pos hcrlf, if_pos hcrlf]
        exact ih
      · rw [if_neg hcrlf, if_neg hcrlf, List.cons_append]
        by_cases hc : c = '\r' ∨ c = '\n'
        · have hbreak : (if c = '\r' then '\n' else c) = '\n' := by
            split
            · rfl
            · rename_i hne
              exact hc.resolve_left hne
          rw [if_pos hc, hbreak, ← ih]
          rfl
        · rw [if_neg hc, if_neg fun hr => hc (Or.inl hr), ← ih]
          cases hlines : breakLines text with
          | nil => exact absurd hlines (breakLines_ne_nil text)
          | cons line more => rfl

theorem exists_endLines_eq {lines : List Text} (h : lines ≠ []) :
    ∃ text, endLines lines = text ++ ['\n'] := by
  refine ⟨endLines lines.dropLast ++ lines.getLast h, ?_⟩
  conv => lhs; rw [← List.dropLast_append_getLast h]
  simp [endLines]

/-! ## Fields and events -/

/-- An event that is dispatched to the client. -/
structure StreamEvent where
  lastEventId : Text
  type : Text
  data : Text
  deriving DecidableEq, Repr

namespace EventStream

/-- The buffers of a client for the last event ID, the event type and the data. -/
structure Buffers where
  lastEventId : Text
  type : Text
  data : Text

def Buffers.empty : Buffers := ⟨[], [], []⟩

/-- A value without the space that may stand before it. -/
def stripSpace (value : Text) : Text :=
  if value.head? = some ' ' then value.tail else value

/-- What a field does to the buffers; the reconnection time is left out. -/
def processField (b : Buffers) (name value : Text) : Buffers :=
  if name = "event".toList then { b with type := value }
  else if name = "data".toList then { b with data := b.data ++ value ++ ['\n'] }
  else if name = "id".toList then { b with lastEventId := value }
  else b

/-- The event that an empty line dispatches, if there is data for it. -/
def dispatch (b : Buffers) : List StreamEvent :=
  if b.data = [] then []
  else
    [{ lastEventId := b.lastEventId
       type := if b.type = [] then "message".toList else b.type
       data := if b.data.getLast? = some '\n' then b.data.dropLast else b.data }]

/-- A line that is not empty: a comment, or a field. -/
def processLine (b : Buffers) (line : Text) : Buffers :=
  if line.head? = some ':' then b
  else if ':' ∈ line then
    processField b (line.takeWhile (· ≠ ':')) (stripSpace (line.dropWhile (· ≠ ':')).tail)
  else processField b line []

def processLines : Buffers → List Text → List StreamEvent
  | _, [] => []
  | b, line :: lines =>
      if line = [] then dispatch b ++ processLines { b with type := [], data := [] } lines
      else processLines (processLine b line) lines

/-- A text without the byte order mark that may stand before it. -/
def stripMark (text : Text) : Text :=
  if text.head? = some '\uFEFF' then text.tail else text

/-- The events of a stream; a line that has no end is discarded. -/
def decode (text : Text) : List StreamEvent :=
  processLines Buffers.empty (breakLines (stripMark text)).dropLast

variable {b : Buffers} {name value line : Text} {lines values : List Text}

theorem stripSpace_eq_self : stripSpace value = value ↔ value.head? ≠ some ' ' := by
  unfold stripSpace
  cases value with
  | nil => simp
  | cons c value =>
      by_cases hc : c = ' '
      · simp [hc]
      · simp [hc]

theorem unbroken_stripSpace (h : Unbroken value) : Unbroken (stripSpace value) := by
  unfold stripSpace
  cases value with
  | nil => exact h
  | cons c value =>
      split
      · exact h.tail
      · exact h

/-- A field is read with its name and with its value without a space before it. -/
theorem processLine_field (hname : ':' ∉ name) (hne : name ≠ []) :
    processLine b (name ++ ':' :: value) = processField b name (stripSpace value) := by
  have hplain : ∀ c ∈ name, decide (c ≠ ':') = true := fun c hc =>
    decide_eq_true fun heq => hname (heq ▸ hc)
  have hhead : (name ++ ':' :: value).head? ≠ some ':' := by
    cases name with
    | nil => exact absurd rfl hne
    | cons c name =>
        intro hc
        exact hname (by rw [← Option.some.inj hc]; exact List.mem_cons_self)
  rw [processLine, if_neg hhead, if_pos (by simp), List.takeWhile_append_of_pos hplain,
    List.dropWhile_append_of_pos hplain]
  simp

theorem processLines_field (b : Buffers) {name : Text} (value : Text) (lines : List Text)
    (hname : ':' ∉ name) (hne : name ≠ []) :
    processLines b ((name ++ ':' :: value) :: lines) =
      processLines (processField b name (stripSpace value)) lines := by
  rw [processLines, if_neg (by simp), processLine_field hname hne]

theorem dataName : ':' ∉ "data".toList ∧ "data".toList ≠ [] := by decide

/-- The values of the data fields are collected, each ended with LF. -/
theorem processLines_data :
    processLines b (values.map ("data:".toList ++ ·) ++ lines) =
      processLines { b with data := b.data ++ endLines (values.map stripSpace) } lines := by
  induction values generalizing b with
  | nil => simp [endLines]
  | cons value values ih =>
      rw [List.map_cons, List.cons_append]
      refine (processLines_field b value _ dataName.1 dataName.2).trans (ih.trans ?_)
      simp [processField, endLines]

/-- An empty line dispatches what the buffers hold. -/
theorem processLines_dispatch {data : Text} (h : b.data = data ++ ['\n']) :
    processLines b [[]] =
      [⟨b.lastEventId, if b.type = [] then "message".toList else b.type, data⟩] := by
  rw [processLines, if_pos rfl, dispatch, h, if_neg (by simp)]
  simp [processLines]

/-- A stream of lines that are all ended, the first of which is not empty. -/
theorem decode_endLines {first : Text} (h : ∀ line ∈ first :: lines, Unbroken line)
    (hmark : first.head? ≠ some '\uFEFF') (hne : first ≠ []) :
    decode (endLines (first :: lines)) = processLines Buffers.empty (first :: lines) := by
  have hstrip : stripMark (endLines (first :: lines)) = endLines (first :: lines) := by
    cases first with
    | nil => exact absurd rfl hne
    | cons c first => exact if_neg hmark
  rw [decode, hstrip, breakLines_endLines h, List.dropLast_concat]

end EventStream

end Lib
end ContestManagement
