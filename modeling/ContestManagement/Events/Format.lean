import ContestManagement.Lib.EventStream

/-!
# The format of an event

`format_event` of `cmscommon/eventsource.py` writes an event as fields of an event stream.  A
client that reads them gets the event, unless a field has a value that starts with a space, which
the client takes for the separator, or the name of the event is empty.
-/

namespace ContestManagement
namespace Events

open Lib EventStream

/-- What `format_event` raises when the name of the event has an illegal character. -/
structure ValueError where
  message : String
  deriving DecidableEq

def illegalEvent : ValueError := ⟨"Event cannot contain '\\r', '\\n' or ':'."⟩

/-- `re.split("\r\n|(?<!\r)\n|\r(?!\n)", data)`, from a place in the data; the character before it
is given too. -/
def splitData : Option Char → Text → List Text
  | _, [] => [[]]
  | prev, [c] =>
      if c = '\n' ∧ prev ≠ some '\r' then [[], []]
      else if c = '\r' then [[], []]
      else [[c]]
  | prev, c :: d :: rest =>
      if c = '\r' ∧ d = '\n' then [] :: splitData (some d) rest
      else if c = '\n' ∧ prev ≠ some '\r' then [] :: splitData (some c) (d :: rest)
      else if c = '\r' ∧ d ≠ '\n' then [] :: splitData (some c) (d :: rest)
      else consLine c (splitData (some c) (d :: rest))

/-- The field of the event name; the default one is not written. -/
def eventField (event : Option Text) : Except ValueError (List Text) :=
  match event with
  | none => .ok []
  | some name =>
      if name = "message".toList then .ok []
      else if name.any ("\r\n:".toList.contains ·) then .error illegalEvent
      else .ok ["event:".toList ++ name]

def dataFields (data : Option Text) : List Text :=
  match data with
  | none => []
  | some data => (splitData none data).map ("data:".toList ++ ·)

/-- `format_event`. -/
def formatEvent (id : Text) (event data : Option Text) : Except ValueError Text := do
  let result := ["id:".toList ++ id]
  let result := result ++ (← eventField event)
  let result := result ++ dataFields data
  let result := result ++ [['\n']]
  return ['\n'].intercalate result

/-- The type of an event with a name, or without one. -/
def eventType (event : Option Text) : Text :=
  event.getD "message".toList

variable {id name data out : Text} {event : Option Text} {prev : Option Char}

/-- The regular expression splits at the line breaks; a CR before the data is not the first half of
a CRLF. -/
theorem splitData_eq (h : prev = some '\r' → data.head? ≠ some '\n') :
    splitData prev data = breakLines data := by
  induction prev, data using splitData.induct with
  | case1 prev => rfl
  | case2 prev c hc =>
      rw [splitData, if_pos hc, breakLines_break (Or.inr hc.1) (by simp)]
      rfl
  | case3 prev hc =>
      rw [splitData, if_neg hc, if_pos rfl, breakLines_break (Or.inl rfl) (by simp)]
      rfl
  | case4 prev c hc hr =>
      have hbreak : ¬(c = '\r' ∨ c = '\n') := by
        rintro (heq | heq)
        · exact hr heq
        · exact hc ⟨heq, fun hprev => h hprev (congrArg some heq)⟩
      rw [splitData, if_neg hc, if_neg hr, breakLines_plain hbreak]
      rfl
  | case5 prev c d rest hc ih =>
      rw [splitData, if_pos hc, ih (by rw [hc.2]; simp), hc.1, hc.2, breakLines_crlf]
  | case6 prev c d rest hc hn ih =>
      have hcrlf : ¬(c = '\r' ∧ (d :: rest).head? = some '\n') := by simpa using hc
      rw [splitData, if_neg hc, if_pos hn, ih (by rw [hn.1]; simp),
        breakLines_break (Or.inr hn.1) hcrlf]
  | case7 prev c d rest hc hn hr ih =>
      have hcrlf : ¬(c = '\r' ∧ (d :: rest).head? = some '\n') := by simpa using hc
      rw [splitData, if_neg hc, if_neg hn, if_pos hr, ih (by simpa using fun _ => hr.2),
        breakLines_break (Or.inl hr.1) hcrlf]
  | case8 prev c d rest hc hn hr ih =>
      have hcr : c ≠ '\r' := fun heq => hr ⟨heq, fun hd => hc ⟨heq, hd⟩⟩
      have hbreak : ¬(c = '\r' ∨ c = '\n') := by
        rintro (heq | heq)
        · exact hcr heq
        · exact hn ⟨heq, fun hprev => h hprev (congrArg some heq)⟩
      rw [splitData, if_neg hc, if_neg hn, if_neg hr,
        ih fun heq => absurd (Option.some.inj heq) hcr, breakLines_plain hbreak]

/-- The lines of an event, each ended with LF. -/
theorem intercalate_lines (lines : List Text) :
    ['\n'].intercalate (lines ++ [['\n']]) = endLines (lines ++ [[]]) := by
  induction lines with
  | nil => rfl
  | cons line more ih =>
      cases more with
      | nil => simp [endLines, List.intercalate, List.intersperse]
      | cons next more =>
          simp only [List.cons_append, List.intercalate_cons_cons] at ih ⊢
          rw [ih]
          simp [endLines]

theorem legal_iff : name.any ("\r\n:".toList.contains ·) = false ↔ Unbroken name ∧ ':' ∉ name := by
  unfold Unbroken
  rw [List.any_eq_false]
  simp only [List.contains_iff_mem, String.reduceToList, List.mem_cons, List.not_mem_nil, or_false]
  constructor
  · intro h
    exact ⟨⟨fun hr => h _ hr (Or.inl rfl), fun hn => h _ hn (Or.inr (Or.inl rfl))⟩,
      fun hcolon => h _ hcolon (Or.inr (Or.inr rfl))⟩
  · rintro ⟨⟨hr, hn⟩, hcolon⟩ c hc (heq | heq | heq)
    · exact hr (heq ▸ hc)
    · exact hn (heq ▸ hc)
    · exact hcolon (heq ▸ hc)

/-- An event name is accepted if it has no line break and no colon. -/
theorem eventField_accepts :
    (∃ fields, eventField event = .ok fields) ↔ ∀ name ∈ event, Unbroken name ∧ ':' ∉ name := by
  unfold eventField
  cases event with
  | none => simp
  | some name =>
      simp only [Option.mem_some_iff, forall_eq', ← legal_iff]
      by_cases hname : name = "message".toList
      · rw [if_pos hname, hname]
        exact ⟨fun _ => by decide, fun _ => ⟨[], rfl⟩⟩
      · rw [if_neg hname]
        cases hlegal : name.any ("\r\n:".toList.contains ·) with
        | true => simp
        | false => simp

theorem formatEvent_accepts :
    (∃ out, formatEvent id event (some data) = .ok out) ↔
      ∀ name ∈ event, Unbroken name ∧ ':' ∉ name := by
  rw [← eventField_accepts]
  unfold formatEvent
  constructor
  · rintro ⟨out, hout⟩
    cases hfield : eventField event with
    | error e =>
        rw [hfield] at hout
        cases hout
    | ok fields => exact ⟨fields, rfl⟩
  · rintro ⟨fields, hfield⟩
    rw [hfield]
    exact ⟨_, rfl⟩

theorem eventField_ok {fields : List Text} (h : eventField event = .ok fields) :
    (fields = [] ∧ eventType event = "message".toList) ∨
      ∃ name, event = some name ∧ Unbroken name ∧ fields = ["event:".toList ++ name] := by
  unfold eventField at h
  cases event with
  | none =>
      exact Or.inl ⟨(Except.ok.inj h).symm, rfl⟩
  | some name =>
      dsimp only at h
      split at h
      · rename_i hname
        exact Or.inl ⟨(Except.ok.inj h).symm, hname⟩
      · split at h
        · cases h
        · rename_i hlegal
          right
          exact ⟨name, rfl, (legal_iff.1 (Bool.eq_false_iff.2 hlegal)).1, (Except.ok.inj h).symm⟩

theorem formatEvent_ok (h : formatEvent id event (some data) = .ok out) :
    ∃ fields, eventField event = .ok fields ∧
      out = endLines (("id:".toList ++ id) ::
        (fields ++ ((breakLines data).map ("data:".toList ++ ·) ++ [[]]))) := by
  unfold formatEvent at h
  cases hfield : eventField event with
  | error e =>
      rw [hfield] at h
      cases h
  | ok fields =>
      rw [hfield] at h
      refine ⟨fields, rfl, (Except.ok.inj h).symm.trans ?_⟩
      rw [intercalate_lines, dataFields, splitData_eq fun hprev => by cases hprev]
      simp

/-- The digits of an id. -/
def Hexadecimal (id : Text) : Prop :=
  ∀ c ∈ id, c ∈ "0123456789abcdefABCDEF".toList

theorem Hexadecimal.unbroken (h : Hexadecimal id) : Unbroken id :=
  ⟨fun hr => absurd (h _ hr) (by decide), fun hn => absurd (h _ hn) (by decide)⟩

theorem Hexadecimal.head?_ne (h : Hexadecimal id) : id.head? ≠ some ' ' := fun hspace =>
  absurd (h _ (List.mem_of_head? hspace)) (by decide)

/-- The type that a client reads. -/
def readType (event : Option Text) : Text :=
  if stripSpace (eventType event) = [] then "message".toList else stripSpace (eventType event)

theorem unbroken_lines (hid : Hexadecimal id) {fields : List Text}
    (hfields : eventField event = .ok fields) :
    ∀ line ∈ ("id:".toList ++ id) ::
      (fields ++ ((breakLines data).map ("data:".toList ++ ·) ++ [[]])), Unbroken line := by
  intro line hline
  simp only [List.mem_cons, List.mem_append, List.mem_map, List.not_mem_nil, or_false] at hline
  rcases hline with rfl | hfield | ⟨piece, hpiece, rfl⟩ | rfl
  · exact Unbroken.append (by unfold Unbroken; decide) hid.unbroken
  · rcases eventField_ok hfields with ⟨hnone, -⟩ | ⟨name, -, hname, hsome⟩
    · rw [hnone] at hfield
      cases hfield
    · rw [hsome, List.mem_singleton] at hfield
      rw [hfield]
      exact Unbroken.append (by unfold Unbroken; decide) hname
  · exact Unbroken.append (by unfold Unbroken; decide) (unbroken_of_mem_breakLines hpiece)
  · exact ⟨List.not_mem_nil, List.not_mem_nil⟩

theorem idName : ':' ∉ "id".toList ∧ "id".toList ≠ [] := by decide

theorem eventName : ':' ∉ "event".toList ∧ "event".toList ≠ [] := by decide

/-- A client reads the id, the name and the lines of the data without a space before them. -/
theorem decode_formatEvent (hid : Hexadecimal id)
    (h : formatEvent id event (some data) = .ok out) {read : Text}
    (hread : endLines ((breakLines data).map stripSpace) = read ++ ['\n']) :
    decode out = [⟨id, readType event, read⟩] := by
  obtain ⟨fields, hfields, rfl⟩ := formatEvent_ok h
  rw [decode_endLines (unbroken_lines hid hfields) (by simp) (by simp)]
  refine (processLines_field Buffers.empty id _ idName.1 idName.2).trans ?_
  rw [stripSpace_eq_self.2 hid.head?_ne]
  rcases eventField_ok hfields with ⟨rfl, htype⟩ | ⟨name, rfl, -, rfl⟩
  · rw [List.nil_append, processLines_data]
    refine (processLines_dispatch hread).trans ?_
    rw [readType, htype]
    rfl
  · rw [List.singleton_append]
    refine (processLines_field _ name _ eventName.1 eventName.2).trans ?_
    rw [processLines_data]
    exact processLines_dispatch hread

theorem readType_eq_iff :
    readType event = eventType event ↔
      ∀ name ∈ event, name ≠ [] ∧ name.head? ≠ some ' ' := by
  unfold readType eventType
  cases event with
  | none => simp [stripSpace]
  | some name =>
      simp only [Option.getD_some, Option.mem_some_iff, forall_eq']
      constructor
      · intro heq
        have hne : name ≠ [] := by
          intro hnil
          rw [hnil] at heq
          simp [stripSpace] at heq
        refine ⟨hne, stripSpace_eq_self.1 ?_⟩
        by_cases hstrip : stripSpace name = []
        · rw [if_pos hstrip] at heq
          rw [← heq] at hstrip ⊢
          simp [stripSpace]
        · rw [if_neg hstrip] at heq
          exact heq
      · intro h
        rw [stripSpace_eq_self.2 h.2, if_neg h.1]

/-- A client gets the event that was formatted, the line breaks of its data turned into LF,
exactly if no line of the data and no name starts with a space and the name is not empty. -/
theorem event_round_trips_iff (id : Text) (event : Option Text) (data out : Text)
    (hid : Hexadecimal id) (hout : formatEvent id event (some data) = .ok out) :
    decode out = [⟨id, eventType event, normalizeBreaks data⟩] ↔
      (∀ line ∈ breakLines data, line.head? ≠ some ' ') ∧
        ∀ name ∈ event, name ≠ [] ∧ name.head? ≠ some ' ' := by
  have hstripped : ∀ line ∈ (breakLines data).map stripSpace, Unbroken line := by
    intro line hline
    obtain ⟨piece, hpiece, rfl⟩ := List.mem_map.1 hline
    exact unbroken_stripSpace (unbroken_of_mem_breakLines hpiece)
  have hne : (breakLines data).map stripSpace ≠ [] := by simpa using breakLines_ne_nil data
  obtain ⟨read, hread⟩ := exists_endLines_eq hne
  have hdata : read = normalizeBreaks data ↔ ∀ line ∈ breakLines data, line.head? ≠ some ' ' := by
    rw [← List.append_left_inj ['\n'], ← hread, ← endLines_breakLines,
      endLines_inj hstripped fun line => unbroken_of_mem_breakLines]
    conv => lhs; rhs; rw [← List.map_id (breakLines data)]
    rw [List.map_inj_left]
    exact forall₂_congr fun line _ => stripSpace_eq_self
  rw [decode_formatEvent hid hout hread, ← readType_eq_iff, ← hdata]
  simp [and_comm]

theorem score_event_round_trips :
    Hexadecimal "62a".toList ∧
      formatEvent "62a".toList (some "score".toList) (some "u t\r\n1.0".toList) =
        .ok "id:62a\nevent:score\ndata:u t\ndata:1.0\n\n".toList ∧
      decode "id:62a\nevent:score\ndata:u t\ndata:1.0\n\n".toList =
        [⟨"62a".toList, "score".toList, "u t\n1.0".toList⟩] := by
  have hid : Hexadecimal "62a".toList := by simp [Hexadecimal]
  have hout : formatEvent "62a".toList (some "score".toList) (some "u t\r\n1.0".toList) =
      .ok "id:62a\nevent:score\ndata:u t\ndata:1.0\n\n".toList := by decide
  refine ⟨hid, hout, (event_round_trips_iff _ _ _ _ hid hout).2 ⟨by decide, ?_⟩⟩
  intro name hname
  rw [← Option.some.inj hname]
  decide

/-- A space at the start of the data is lost. -/
theorem leading_space_lost :
    formatEvent "62a".toList none (some " x".toList) = .ok "id:62a\ndata: x\n\n".toList ∧
      decode "id:62a\ndata: x\n\n".toList ≠
        [⟨"62a".toList, eventType none, normalizeBreaks " x".toList⟩] := by
  decide

end Events
end ContestManagement
