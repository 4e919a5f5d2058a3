import ContestManagement.Grading.TaskScore
import ContestManagement.Lib.DecimalText
import ContestManagement.Ranking.DeliveryOrder
import ContestManagement.Service.ProxyExecutor

/-!
# The operations for the scores and tokens of submissions

`operations_for_score` and `operations_for_token` of `cms/service/ProxyService.py` build from a
submission the entity of the submission and a subchange with its score or its token.  A ranking
gets them as lists with one entity.

Whatever the order in which they arrive, as long as a submission comes before its subchanges, the
ranking takes all of them, and its stores end up with exactly what was built.
-/

namespace ContestManagement
namespace Service
namespace ScoreOperations

open Lib
open Grading (ScoreTypeGroup)
open Grading.TaskScore (Submission Graded)

/-- `int(x)`, which is also what `%d` shows of a float. -/
def truncate (q : ℚ) : ℤ := if 0 ≤ q then ⌊q⌋ else ⌈q⌉

/-- `encode_id`: other characters than letters and digits are written as their code point. -/
def encodeId (entityId : String) : String :=
  String.ofList (entityId.toList.flatMap fun c =>
    if c.isAlphanum then [c] else '_' :: Nat.toDigits 16 c.toNat)

/-! ## The data of an operation -/

def submissionId (s : Submission) : String := toString s.id

def submissionData (username : String) (s : Submission) : PyValue :=
  .dict [("user", .str (encodeId username)), ("task", .str (encodeId s.task)),
    ("time", .int (truncate s.timestamp))]

def scoreChangeId (s : Submission) : String :=
  toString (truncate s.timestamp) ++ submissionId s ++ "s"

def scoreChangeData (s : Submission) : PyValue :=
  let data := [("submission", .str (submissionId s)), ("time", .int (truncate s.timestamp))]
  match s.result with
  | some r =>
      .dict (data ++ [("score", .float r.score), ("extra", .list (r.rankingDetails.map .str))])
  | none => .dict data

def tokenChangeId (s : Submission) (timestamp : ℚ) : String :=
  toString (truncate timestamp) ++ submissionId s ++ "t"

def tokenChangeData (s : Submission) (timestamp : ℚ) : PyValue :=
  .dict [("submission", .str (submissionId s)), ("time", .int (truncate timestamp)),
    ("token", .bool true)]

/-! ## The operations -/

section Operations

variable (brokenContests : Finset Nat) (contest : Nat) (group : Namespace) (username : String)

/-- `operations_for_score`, without the mark of the submission as sent. -/
def operationsForScore (s : Submission) : List (ProxyOperation PyValue) :=
  if contest ∈ brokenContests then []
  else [⟨.entities .submission (Dict.singleton (submissionId s) (submissionData username s)), group⟩,
    ⟨.entities .subchange (Dict.singleton (scoreChangeId s) (scoreChangeData s)), group⟩]

/-- `operations_for_token`, for a submission with a token. -/
def operationsForToken (s : Submission) (timestamp : ℚ) : List (ProxyOperation PyValue) :=
  if contest ∈ brokenContests then []
  else [⟨.entities .submission (Dict.singleton (submissionId s) (submissionData username s)), group⟩,
    ⟨.entities .subchange
      (Dict.singleton (tokenChangeId s timestamp) (tokenChangeData s timestamp)), group⟩]

end Operations

/-- What one operation carries. -/
inductive Message where
  | submission (s : Submission)
  | score (s : Submission)
  | token (s : Submission) (timestamp : ℚ)
  deriving DecidableEq

namespace Message

def operation (group : Namespace) (username : String) : Message → ProxyOperation PyValue
  | submission s =>
      ⟨.entities .submission (Dict.singleton (submissionId s) (submissionData username s)), group⟩
  | score s => ⟨.entities .subchange (Dict.singleton (scoreChangeId s) (scoreChangeData s)), group⟩
  | token s timestamp =>
      ⟨.entities .subchange
        (Dict.singleton (tokenChangeId s timestamp) (tokenChangeData s timestamp)), group⟩

end Message

/-- The messages are those of the operations. -/
theorem operationsForScore_eq {brokenContests : Finset Nat} {contest : Nat}
    (h : contest ∉ brokenContests) (group : Namespace) (username : String) (s : Submission) :
    operationsForScore brokenContests contest group username s =
      [Message.submission s, Message.score s].map (Message.operation group username) :=
  if_neg h

theorem operationsForToken_eq {brokenContests : Finset Nat} {contest : Nat}
    (h : contest ∉ brokenContests) (group : Namespace) (username : String) (s : Submission)
    (timestamp : ℚ) : operationsForToken brokenContests contest group username s timestamp =
      [Message.submission s, Message.token s timestamp].map (Message.operation group username) :=
  if_neg h

/-- The kind of entities in the stores of a ranking. -/
def kindOf : EntityType → Ranking.Kind
  | .contest => .contest
  | .task => .task
  | .team => .team
  | .user => .user
  | .submission => .submission
  | .subchange => .subchange

/-- What the ranking does with the data of an operation. -/
def request (operation : ProxyOperation PyValue) : Option Ranking.Op :=
  match operation.payload with
  | .entities type_ data => some (.mergeList (kindOf type_) (.dict data.items))
  | _ => none

/-! ## The order of the messages -/

/-- Messages about some submissions, in an order that sends a submission before its
subchanges. -/
inductive Arranged (submissions : List Submission) : List Message → Prop
  | nil : Arranged submissions []
  | submission {sent : List Message} {s : Submission} (h : Arranged submissions sent)
      (hs : s ∈ submissions) : Arranged submissions (sent ++ [.submission s])
  | score {sent : List Message} {s : Submission} (h : Arranged submissions sent)
      (hs : s ∈ submissions) (hsent : Message.submission s ∈ sent) :
      Arranged submissions (sent ++ [.score s])
  | token {sent : List Message} {s : Submission} {timestamp : ℚ} (h : Arranged submissions sent)
      (hs : s ∈ submissions) (hsent : Message.submission s ∈ sent)
      (htoken : s.token = some timestamp) : Arranged submissions (sent ++ [.token s timestamp])

/-- All the messages about some submissions have been sent, some perhaps many times. -/
structure Complete (submissions : List Submission) (sent : List Message) : Prop where
  arranged : Arranged submissions sent
  score : ∀ s ∈ submissions, Message.score s ∈ sent
  token : ∀ s ∈ submissions, ∀ timestamp, s.token = some timestamp →
    Message.token s timestamp ∈ sent

/-! ## The entities that the ranking reads -/

def submissionEntity (username : String) (s : Submission) : Ranking.Submission :=
  ⟨encodeId username, encodeId s.task, truncate s.timestamp⟩

def scoreChange (s : Submission) : Ranking.Subchange :=
  ⟨submissionId s, truncate s.timestamp, s.result.map Grading.ScoreResult.score, none,
    s.result.map Grading.ScoreResult.rankingDetails⟩

def tokenChange (s : Submission) (timestamp : ℚ) : Ranking.Subchange :=
  ⟨submissionId s, truncate timestamp, none, some true, none⟩

theorem set_submissionData (username : String) (s : Submission) :
    Ranking.Data.set .submission (submissionData username s) = .ok (submissionEntity username s) :=
  rfl

theorem strings?_map (texts : List String) :
    (PyValue.list (texts.map .str)).strings? = some texts := by
  unfold PyValue.strings?
  dsimp only
  induction texts with
  | nil => rfl
  | cons text rest ih =>
      rw [List.map_cons, List.mapM_cons, ih]
      rfl

theorem set_scoreChangeData (s : Submission) :
    Ranking.Data.set .subchange (scoreChangeData s) = .ok (scoreChange s) := by
  unfold scoreChangeData scoreChange
  dsimp only
  cases s.result with
  | none => rfl
  | some r =>
      have htexts := strings?_map r.rankingDetails
      show Ranking.Subchange.set _ = _
      simp [Ranking.Subchange.set, Ranking.asDict, Ranking.checked, Ranking.optional, Ranking.field,
        Ranking.require, PyValue.str?, PyValue.int?, Ranking.float?, htexts, List.lookup_cons, bind,
        Except.bind, pure, Except.pure, Functor.map, Except.map]

theorem set_tokenChangeData (s : Submission) (timestamp : ℚ) :
    Ranking.Data.set .subchange (tokenChangeData s timestamp) = .ok (tokenChange s timestamp) :=
  rfl

/-! ## The keys -/

theorem truncate_natural {q : ℚ} (h : 0 ≤ q) : ∃ n : ℕ, truncate q = n := by
  rw [truncate, if_pos h]
  exact ⟨⌊q⌋.toNat, (Int.toNat_of_nonneg (Int.floor_nonneg.2 h)).symm⟩

theorem truncate_natCast (n : ℕ) : truncate (n : ℚ) = n := by
  rw [truncate, if_pos (Nat.cast_nonneg n), Int.floor_natCast]

/-- The characters that a key may have. -/
theorem validKey_iff {key : String} : Ranking.validKey key = true ↔
    key ≠ "" ∧ ∀ c ∈ key.toList, ('A' ≤ c ∧ c ≤ 'Z') ∨ ('a' ≤ c ∧ c ≤ 'z') ∨ ('0' ≤ c ∧ c ≤ '9') ∨
      c = '_' := by
  simp [Ranking.validKey, or_assoc]

theorem digit_of_mem_repr {n : ℕ} {c : Char} (h : c ∈ n.repr.toList) : '0' ≤ c ∧ c ≤ '9' := by
  rw [Nat.toList_repr] at h
  have hdigit := Nat.isDigit_of_mem_toDigits (by decide) (by decide) h
  simpa [Char.isDigit, Char.le_def] using hdigit

theorem repr_injective : Function.Injective Nat.repr := by
  intro m n h
  have hdigits : Nat.toDigits 10 m = Nat.toDigits 10 n := by
    rw [← Nat.toList_repr, ← Nat.toList_repr, h]
  calc
    m = Nat.ofDigitChars 10 (Nat.toDigits 10 m) 0 :=
      (Nat.ofDigitChars_toDigits (by decide) (by decide)).symm
    _ = Nat.ofDigitChars 10 (Nat.toDigits 10 n) 0 := by rw [hdigits]
    _ = n := Nat.ofDigitChars_toDigits (by decide) (by decide)

theorem validKey_submissionId (s : Submission) : Ranking.validKey (submissionId s) = true := by
  rw [validKey_iff]
  refine ⟨Nat.repr_ne_empty, fun c hc => ?_⟩
  exact Or.inr (Or.inr (Or.inl (digit_of_mem_repr hc)))

theorem validKey_change (n : ℕ) (s : Submission) {mark : String} (hmark : mark = "s" ∨ mark = "t") :
    Ranking.validKey (toString (n : ℤ) ++ submissionId s ++ mark) = true := by
  rw [validKey_iff]
  have hlast : ∀ c ∈ mark.toList, 'a' ≤ c ∧ c ≤ 'z' := by
    rcases hmark with rfl | rfl
    · simp
    · simp
  constructor
  · intro hempty
    have hlist := congrArg String.toList hempty
    rw [String.toList_append, String.toList_append] at hlist
    have hnone := (List.append_eq_nil_iff.1 (List.append_eq_nil_iff.1 hlist).1).2
    rw [submissionId, Nat.toString_eq_repr, Nat.toList_repr] at hnone
    exact Nat.toDigits_ne_nil hnone
  · intro c hc
    rw [String.toList_append, String.toList_append] at hc
    rcases List.mem_append.1 hc with hc | hc
    · rcases List.mem_append.1 hc with hc | hc
      · exact Or.inr (Or.inr (Or.inl (digit_of_mem_repr (n := n) hc)))
      · exact Or.inr (Or.inr (Or.inl (digit_of_mem_repr (n := s.id) hc)))
    · exact Or.inr (Or.inl (hlast c hc))

/-- Scores and tokens have different keys. -/
theorem scoreChangeId_ne_tokenChangeId (s s' : Submission) (timestamp : ℚ) :
    scoreChangeId s ≠ tokenChangeId s' timestamp := by
  intro h
  have hlast := congrArg (fun key : String => key.toList.getLast?) h
  simp [scoreChangeId, tokenChangeId] at hlast

/-- The times of the changes have ten digits, as those from September 2001 to 2286. -/
theorem tenDigits_append {m n : ℕ} (hm : 10 ^ 9 ≤ m ∧ m < 10 ^ 10) (hn : 10 ^ 9 ≤ n ∧ n < 10 ^ 10)
    {first second : String} (h : toString (m : ℤ) ++ first = toString (n : ℤ) ++ second) :
    first = second := by
  have hlength : ∀ k : ℕ, 10 ^ 9 ≤ k ∧ k < 10 ^ 10 → (toString (k : ℤ)).toList.length = 10 := by
    intro k hk
    have hlow := (Nat.length_toDigits_le_iff (b := 10) (n := k) (k := 9) (by decide) (by decide)).not.2
      (not_lt.2 hk.1)
    have hhigh := (Nat.length_toDigits_le_iff (b := 10) (n := k) (k := 10) (by decide)
      (by decide)).2 hk.2
    show k.repr.toList.length = 10
    rw [Nat.toList_repr]
    omega
  have hlist := congrArg String.toList h
  rw [String.toList_append, String.toList_append] at hlist
  exact String.toList_inj.1 (List.append_inj hlist (by rw [hlength m hm, hlength n hn])).2

/-- A time with ten digits, in seconds. -/
def TenDigits (q : ℚ) : Prop := 10 ^ 9 ≤ truncate q ∧ truncate q < 10 ^ 10

instance (q : ℚ) : Decidable (TenDigits q) := inferInstanceAs (Decidable (_ ∧ _))

/-- Changes at such times have the same key only if they are about the same submission. -/
theorem submissionId_of_tenDigits {s s' : Submission} {q q' : ℚ} {mark : String} (h : TenDigits q)
    (h' : TenDigits q')
    (hkeys : toString (truncate q) ++ submissionId s ++ mark =
      toString (truncate q') ++ submissionId s' ++ mark) : submissionId s = submissionId s' := by
  obtain ⟨m, hm⟩ := Int.eq_ofNat_of_zero_le ((by norm_num : (0 : ℤ) ≤ 10 ^ 9).trans h.1)
  obtain ⟨n, hn⟩ := Int.eq_ofNat_of_zero_le ((by norm_num : (0 : ℤ) ≤ 10 ^ 9).trans h'.1)
  have hbounds : 10 ^ 9 ≤ m ∧ m < 10 ^ 10 := by
    unfold TenDigits at h
    omega
  have hbounds' : 10 ^ 9 ≤ n ∧ n < 10 ^ 10 := by
    unfold TenDigits at h'
    omega
  rw [hm, hn, String.append_assoc, String.append_assoc] at hkeys
  exact (String.append_left_inj mark).1 (tenDigits_append hbounds hbounds' hkeys)

/-- So the keys of the changes do not collide. -/
theorem keys_of_tenDigits {submissions : List Submission}
    (hids : (submissions.map Submission.id).Nodup)
    (htimes : ∀ s ∈ submissions, TenDigits s.timestamp ∧ ∀ timestamp ∈ s.token, TenDigits timestamp) :
    (∀ s ∈ submissions, ∀ s' ∈ submissions, scoreChangeId s = scoreChangeId s' → s = s') ∧
      ∀ s ∈ submissions, ∀ s' ∈ submissions, ∀ timestamp timestamp', s.token = some timestamp →
        s'.token = some timestamp' →
          tokenChangeId s timestamp = tokenChangeId s' timestamp' → s = s' := by
  have hinj : ∀ s ∈ submissions, ∀ s' ∈ submissions, submissionId s = submissionId s' → s = s' :=
    fun s hs s' hs' hid => List.inj_on_of_nodup_map hids hs hs' (repr_injective hid)
  constructor
  · intro s hs s' hs' hkeys
    exact hinj s hs s' hs' (submissionId_of_tenDigits (htimes s hs).1 (htimes s' hs').1 hkeys)
  · intro s hs s' hs' timestamp timestamp' htoken htoken' hkeys
    exact hinj s hs s' hs' (submissionId_of_tenDigits ((htimes s hs).2 timestamp htoken)
      ((htimes s' hs').2 timestamp' htoken') hkeys)

/-! ## The run of the ranking -/

/-- The ranking knows the user and the task, and has no submission yet. -/
structure Known (start : Ranking.State) (username : String) (task : Grading.TaskScore.Task) :
    Prop where
  prepared : Ranking.Prepared start
  user : start.stores.has .user (encodeId username) = true
  task : ∃ t, (start.stores .task).get? (encodeId task.name) = some t ∧ t.scoreMode = task.scoreMode

/-- Official submissions for a task, scored without negative points, at different whole seconds
since the epoch; the keys of their changes do not collide. -/
structure Submitted (compile : String → Except PyError (String → Bool)) (st : ScoreTypeGroup)
    (task : Grading.TaskScore.Task) (submissions : List Submission) : Prop where
  official : ∀ s ∈ submissions, s.task = task.name ∧ s.official = true
  scored : ∀ s ∈ submissions, ∃ result r, result.scorePrecision = task.scorePrecision ∧
    st.computeScore compile result = .ok r ∧ s.result = some r ∧
      ∀ subtask ∈ r.subtasks, 0 ≤ subtask.points
  ids : (submissions.map Submission.id).Nodup
  timestamps : (submissions.map Submission.timestamp).Nodup
  seconds : ∀ s ∈ submissions, ∃ n : ℕ, s.timestamp = n
  tokens : ∀ s ∈ submissions, ∀ timestamp, s.token = some timestamp → 0 ≤ timestamp
  scoreKeys : ∀ s ∈ submissions, ∀ s' ∈ submissions, scoreChangeId s = scoreChangeId s' → s = s'
  tokenKeys : ∀ s ∈ submissions, ∀ s' ∈ submissions, ∀ timestamp timestamp',
    s.token = some timestamp → s'.token = some timestamp' →
      tokenChangeId s timestamp = tokenChangeId s' timestamp' → s = s'

namespace Message

/-- The submission that a message is about. -/
def about : Message → Submission
  | submission s => s
  | score s => s
  | token s _ => s

/-- The subchange of a message. -/
def change : Message → Option (String × Ranking.Subchange)
  | submission _ => none
  | score s => some (scoreChangeId s, scoreChange s)
  | token s timestamp => some (tokenChangeId s timestamp, tokenChange s timestamp)

end Message

section Runs

variable {compile : String → Except PyError (String → Bool)} {st : ScoreTypeGroup}
  {start r : Ranking.State} {username : String}
  {task : Grading.TaskScore.Task} {submissions : List Submission} {sent : List Message}
  {s s' : Submission} {timestamp : ℚ}

theorem Arranged.about_mem (h : Arranged submissions sent) {m : Message} (hm : m ∈ sent) :
    m.about ∈ submissions ∧ ∀ s timestamp, m = .token s timestamp → s.token = some timestamp := by
  induction h with
  | nil => cases hm
  | submission _ hs ih =>
      rcases List.mem_append.1 hm with hm | hm
      · exact ih hm
      · rw [List.mem_singleton.1 hm]
        exact ⟨hs, by rintro _ _ ⟨⟩⟩
  | score _ hs _ ih =>
      rcases List.mem_append.1 hm with hm | hm
      · exact ih hm
      · rw [List.mem_singleton.1 hm]
        exact ⟨hs, by rintro _ _ ⟨⟩⟩
  | token _ hs _ htoken ih =>
      rcases List.mem_append.1 hm with hm | hm
      · exact ih hm
      · rw [List.mem_singleton.1 hm]
        refine ⟨hs, fun s timestamp heq => ?_⟩
        cases heq
        exact htoken

theorem Submitted.graded (h : Submitted compile st task submissions) (hs : s ∈ submissions) :
    Graded st.parameters.length task.scorePrecision s := by
  obtain ⟨result, r, hprecision, hscore, hresult, hnonneg⟩ := h.scored s hs
  have hr := Grading.TaskScore.grouped_of_computeScore hscore
  rw [hprecision] at hr
  exact ⟨r, hresult, hr, hnonneg⟩

theorem Submitted.eq_of_id (h : Submitted compile st task submissions) (hs : s ∈ submissions)
    (hs' : s' ∈ submissions) (hid : submissionId s = submissionId s') : s = s' :=
  List.inj_on_of_nodup_map h.ids hs hs' (repr_injective hid)

/-- Two messages with one key have one change. -/
theorem Submitted.change_unique (h : Submitted compile st task submissions)
    (harranged : Arranged submissions sent) {m m' : Message} (hm : m ∈ sent) (hm' : m' ∈ sent)
    {key : String} {c c' : Ranking.Subchange} (hc : m.change = some (key, c))
    (hc' : m'.change = some (key, c')) : c = c' := by
  obtain ⟨hs, htoken⟩ := harranged.about_mem hm
  obtain ⟨hs', htoken'⟩ := harranged.about_mem hm'
  cases m with
  | submission s => cases hc
  | score s =>
      cases m' with
      | submission s' => cases hc'
      | score s' =>
          cases hc
          simp only [Message.change, Option.some.injEq, Prod.mk.injEq] at hc'
          rw [← hc'.2, h.scoreKeys s hs s' hs' hc'.1.symm]
      | token s' timestamp' =>
          cases hc
          simp only [Message.change, Option.some.injEq, Prod.mk.injEq] at hc'
          exact absurd hc'.1.symm (scoreChangeId_ne_tokenChangeId s s' timestamp')
  | token s timestamp =>
      cases m' with
      | submission s' => cases hc'
      | score s' =>
          cases hc
          simp only [Message.change, Option.some.injEq, Prod.mk.injEq] at hc'
          exact absurd hc'.1 (scoreChangeId_ne_tokenChangeId s' s timestamp)
      | token s' timestamp' =>
          cases hc
          simp only [Message.change, Option.some.injEq, Prod.mk.injEq] at hc'
          have hself := htoken s timestamp rfl
          have hself' := htoken' s' timestamp' rfl
          obtain rfl := h.tokenKeys s hs s' hs' timestamp timestamp' hself hself' hc'.1.symm
          rw [hself, Option.some.injEq] at hself'
          rw [← hc'.2, hself']

/-- The stores have exactly what the messages carried, and the scores mirror them. -/
structure Delivered (start : Ranking.State) (username : String) (sent : List Message)
    (r : Ranking.State) : Prop where
  integral : Ranking.Integral r.stores
  mirrors : Ranking.Mirrors r (Ranking.modeOf r.stores)
  tasks : r.stores .task = start.stores .task
  users : r.stores .user = start.stores .user
  submissions : ∀ key data, (r.stores .submission).get? key = some data ↔
    ∃ s, Message.submission s ∈ sent ∧ key = submissionId s ∧ data = submissionEntity username s
  subchanges : ∀ key c, (r.stores .subchange).get? key = some c ↔
    ∃ m ∈ sent, m.change = some (key, c)

theorem delivered_nil (hknown : Known start username task) : Delivered start username [] start where
  integral := hknown.prepared.integral
  mirrors := (Ranking.delivery_mirrors hknown.prepared (.refl start)).1
  tasks := rfl
  users := rfl
  submissions key data := by
    rw [hknown.prepared.submissions]
    simp [Dict.get?_empty]
  subchanges key c := by
    rw [hknown.prepared.subchanges]
    simp [Dict.get?_empty]

/-- Storing the entity of a submission. -/
theorem Delivered.insert_submission (h : Delivered start username sent r)
    (hknown : Known start username task) (hsubmitted : Submitted compile st task submissions)
    (harranged : Arranged submissions sent) (hs : s ∈ submissions) :
    ∃ r', r.insert .submission (submissionId s) (submissionEntity username s) = .ok r' ∧
      r.validated .submission (submissionData username s) = .ok (submissionEntity username s) ∧
      Delivered start username (sent ++ [.submission s]) r' := by
  obtain ⟨t, ht, -⟩ := hknown.task
  have htask : (r.stores .task).get? (submissionEntity username s).task = some t := by
    rw [h.tasks, submissionEntity, (hsubmitted.official s hs).1]
    exact ht
  have hsame : ∀ s', Message.submission s' ∈ sent → submissionId s' = submissionId s → s' = s := by
    intro s' hsent hid
    exact hsubmitted.eq_of_id (harranged.about_mem hsent).1 hs hid
  have hold : ∀ old, (r.stores .submission).get? (submissionId s) = some old →
      old = submissionEntity username s := by
    intro old hget
    obtain ⟨s', hsent, hid, rfl⟩ := (h.submissions _ _).1 hget
    rw [hsame s' hsent hid.symm]
  have hconsistent : Ranking.Data.consistent r.stores .submission (submissionEntity username s) =
      true := by
    have huser : r.stores.has .user (encodeId username) = true := by
      rw [Ranking.Stores.has, h.users]
      exact hknown.user
    simp only [Ranking.Data.consistent, Bool.and_eq_true]
    exact ⟨Ranking.Stores.has_iff.2 ⟨t, htask⟩, huser⟩
  obtain ⟨r', hinsert⟩ : ∃ r', r.insert .submission (submissionId s) (submissionEntity username s) =
      .ok r' := by
    refine Ranking.State.insert_submission_ok h.mirrors htask fun old hget => ?_
    rw [hold old hget]
    exact ⟨rfl, rfl⟩
  refine ⟨r', hinsert, ?_, ?_⟩
  · unfold Ranking.State.validated
    rw [set_submissionData, ok_bind, if_pos hconsistent]
    rfl
  · have htasks : r'.stores .task = r.stores .task :=
      Ranking.State.insert_get?_of_ne (by decide) hinsert
    have husers : r'.stores .user = r.stores .user :=
      Ranking.State.insert_get?_of_ne (by decide) hinsert
    have hsubchanges : r'.stores .subchange = r.stores .subchange :=
      Ranking.State.insert_get?_of_ne (by decide) hinsert
    refine ⟨Ranking.State.integral_insert h.integral hconsistent hinsert,
      Ranking.State.insert_mirrors h.integral h.mirrors ?_ hinsert, htasks.trans h.tasks,
      husers.trans h.users, fun key data => ?_, fun key c => ?_⟩
    · intro old hget
      rw [hold old hget]
      exact Or.inl ⟨rfl, rfl⟩
    · rw [Ranking.State.insert_get?_self hinsert, Function.update_apply]
      split
      case isTrue hkey =>
        constructor
        · intro hdata
          exact ⟨s, by simp, hkey, (Option.some.inj hdata).symm⟩
        · rintro ⟨s', hsent, hid, rfl⟩
          have hs' : s' = s := by
            rcases List.mem_append.1 hsent with hsent | hsent
            · exact hsame s' hsent (hid.symm.trans hkey)
            · exact Message.submission.inj (List.mem_singleton.1 hsent)
          rw [hs']
      case isFalse hne =>
        rw [h.submissions]
        constructor
        · rintro ⟨s', hsent, hid, hdata⟩
          exact ⟨s', List.mem_append_left _ hsent, hid, hdata⟩
        · rintro ⟨s', hsent, hid, hdata⟩
          rcases List.mem_append.1 hsent with hsent | hsent
          · exact ⟨s', hsent, hid, hdata⟩
          · rw [Message.submission.inj (List.mem_singleton.1 hsent)] at hid
            exact absurd hid hne
    · rw [hsubchanges, h.subchanges]
      simp [Message.change, or_and_right, exists_or]

/-- Storing a subchange of a submission that is there. -/
theorem Delivered.insert_change (h : Delivered start username sent r)
    (hknown : Known start username task) (hsubmitted : Submitted compile st task submissions)
    (hs : s ∈ submissions) (hsent : Message.submission s ∈ sent) {m : Message} {key : String}
    {c : Ranking.Subchange} {data : PyValue} (hm : m.change = some (key, c))
    (hdata : Ranking.Data.set .subchange data = .ok c) (habout : c.submission = submissionId s)
    (hreadable : Ranking.Readable task.scoreMode c) (hnonNeg : c.NonNeg)
    (hsame : ∀ m' ∈ sent, ∀ c', m'.change = some (key, c') → c' = c) :
    ∃ r', r.insert .subchange key c = .ok r' ∧ r.validated .subchange data = .ok c ∧
      Delivered start username (sent ++ [m]) r' := by
  have hstored : (r.stores .submission).get? c.submission = some (submissionEntity username s) :=
    (h.submissions _ _).2 ⟨s, hsent, habout, rfl⟩
  have hold : ∀ old, (r.stores .subchange).get? key = some old → old = c := by
    intro old hget
    obtain ⟨m', hm', hc'⟩ := (h.subchanges _ _).1 hget
    exact hsame m' hm' old hc'
  have hconsistent : Ranking.Data.consistent r.stores .subchange c = true :=
    Ranking.Stores.has_iff.2 ⟨_, hstored⟩
  have hmode : ∀ mode, Ranking.modeOf r.stores (submissionEntity username s).task = some mode →
      Ranking.Readable mode c := by
    intro mode hmode
    obtain ⟨t, ht, htmode⟩ := hknown.task
    rw [Ranking.modeOf, h.tasks, submissionEntity, (hsubmitted.official s hs).1, ht,
      Option.map_some, htmode, Option.some.injEq] at hmode
    exact hmode ▸ hreadable
  obtain ⟨r', hinsert⟩ : ∃ r', r.insert .subchange key c = .ok r' := by
    refine Ranking.State.insert_subchange_ok h.mirrors hstored hmode fun old hget => ?_
    rw [hold old hget]
  refine ⟨r', hinsert, ?_, ?_⟩
  · unfold Ranking.State.validated
    rw [hdata, ok_bind, if_pos hconsistent]
    rfl
  · have htasks : r'.stores .task = r.stores .task :=
      Ranking.State.insert_get?_of_ne (by decide) hinsert
    have husers : r'.stores .user = r.stores .user :=
      Ranking.State.insert_get?_of_ne (by decide) hinsert
    have hsubmissions : r'.stores .submission = r.stores .submission :=
      Ranking.State.insert_get?_of_ne (by decide) hinsert
    refine ⟨Ranking.State.integral_insert h.integral hconsistent hinsert,
      Ranking.State.insert_mirrors h.integral h.mirrors ?_ hinsert, htasks.trans h.tasks,
      husers.trans h.users, fun key' entity => ?_, fun key' c' => ?_⟩
    · refine ⟨hnonNeg, fun old hget _ item _ _ _ => ?_⟩
      rw [hold old hget]
    · rw [hsubmissions, h.submissions]
      have hother : ∀ s', Message.submission s' ∈ sent ++ [m] ↔ Message.submission s' ∈ sent := by
        intro s'
        rw [List.mem_append, List.mem_singleton]
        refine or_iff_left fun heq => ?_
        rw [← heq] at hm
        cases hm
      simp only [hother]
    · rw [Ranking.State.insert_get?_self hinsert, Function.update_apply]
      split
      case isTrue hkey =>
        subst hkey
        constructor
        · intro hc'
          exact ⟨m, by simp, by rw [hm, Option.some.inj hc']⟩
        · rintro ⟨m', hm', hc'⟩
          rcases List.mem_append.1 hm' with hm' | hm'
          · rw [hsame m' hm' c' hc']
          · rw [List.mem_singleton.1 hm', hm, Option.some.injEq, Prod.mk.injEq] at hc'
            rw [hc'.2]
      case isFalse hne =>
        rw [h.subchanges]
        constructor
        · rintro ⟨m', hm', hc'⟩
          exact ⟨m', List.mem_append_left _ hm', hc'⟩
        · rintro ⟨m', hm', hc'⟩
          rcases List.mem_append.1 hm' with hm' | hm'
          · exact ⟨m', hm', hc'⟩
          · rw [List.mem_singleton.1 hm', hm, Option.some.injEq, Prod.mk.injEq] at hc'
            exact absurd hc'.1.symm hne

/-- A ranking detail is read with six significant digits. -/
theorem read_rankingDetail {subtaskCount digits : Nat} (hgraded : Graded subtaskCount digits s)
    {r : Grading.ScoreResult} (hresult : s.result = some r) {index : Nat} {text : String}
    (htext : r.rankingDetails[index]? = some text) :
    Decimal.read text = some (.finite (Decimal.roundSix (s.points index))) := by
  have hnonneg := hgraded.points_nonneg index
  obtain ⟨r', hresult', hr, -⟩ := hgraded
  rw [hresult, Option.some.injEq] at hresult'
  subst hresult'
  have hpoints : s.points index = Grading.TaskScore.pointsAt r index := by
    simp [Submission.points, hresult]
  rw [hpoints] at hnonneg ⊢
  rw [hr.details index text htext, Decimal.read_formatG hnonneg]

theorem scoreChange_readable {subtaskCount digits : Nat} (hgraded : Graded subtaskCount digits s)
    {mode : String} (hmode : Ranking.KnownMode mode) :
    Ranking.Readable mode (scoreChange s) ∧ (scoreChange s).NonNeg := by
  have hread : ∀ texts, (scoreChange s).extra = some texts → ∀ text ∈ texts, ∃ index,
      Decimal.read text = some (.finite (Decimal.roundSix (s.points index))) := by
    intro texts htexts text htext
    obtain ⟨r, hresult, rfl⟩ := Option.map_eq_some_iff.1 htexts
    obtain ⟨index, hindex⟩ := List.mem_iff_getElem?.1 htext
    exact ⟨index, read_rankingDetail hgraded hresult hindex⟩
  refine ⟨⟨hmode, fun _ texts htexts text htext => ?_⟩, fun q hq => ?_,
    fun texts htexts text htext q hq => ?_⟩
  · obtain ⟨index, hindex⟩ := hread texts htexts text htext
    exact ⟨_, Decimal.parse_eq_some_iff.2 hindex⟩
  · obtain ⟨r, hresult, rfl⟩ := Option.map_eq_some_iff.1 hq
    have hscore := hgraded.score_nonneg
    rwa [Submission.score, hresult] at hscore
  · obtain ⟨index, hindex⟩ := hread texts htexts text htext
    rw [hindex, Option.some.injEq] at hq
    rw [← hq]
    exact Decimal.roundSix_nonneg (s.points index)

theorem tokenChange_readable (s : Submission) (timestamp : ℚ) {mode : String}
    (hmode : Ranking.KnownMode mode) :
    Ranking.Readable mode (tokenChange s timestamp) ∧ (tokenChange s timestamp).NonNeg := by
  refine ⟨⟨hmode, fun _ texts htexts => ?_⟩, fun q hq => ?_, fun texts htexts => ?_⟩
  · cases htexts
  · cases hq
  · cases htexts

/-- The requests that a ranking gets. -/
def requests (group : Namespace) (username : String) (sent : List Message) : List Ranking.Op :=
  (sent.map (Message.operation group username)).filterMap request

theorem requests_concat (group : Namespace) (username : String) (sent : List Message) (m : Message) :
    requests group username (sent ++ [m]) =
      requests group username sent ++ (request (m.operation group username)).toList := by
  rw [requests, List.map_append, List.filterMap_append, List.map_singleton, requests]
  rfl

/-- One more entity for the ranking. -/
theorem exec_mergeList {ops : List Ranking.Op} {r' : Ranking.State} {k : Ranking.Kind} {key : String}
    {data : PyValue} {e : Ranking.Data k} (hexec : Ranking.rankingMachine.exec start ops = some r)
    (hkey : Ranking.validKey key = true) (hvalidated : r.validated k data = .ok e)
    (hinsert : r.insert k key e = .ok r') :
    Ranking.rankingMachine.exec start (ops ++ [.mergeList k (.dict [(key, data)])]) = some r' := by
  refine Machine.exec_concat hexec ?_
  have hrun : r.run (.mergeList k (.dict [(key, data)])) = .ok r' := by
    show r.mergeList k (.dict [(key, data)]) = .ok r'
    rw [Ranking.State.mergeList_singleton hkey hvalidated, hinsert]
  show r.step (.mergeList k (.dict [(key, data)])) = some r'
  rw [Ranking.State.step, hrun]

/-- The ranking takes every message of an arrangement. -/
theorem Arranged.delivered (h : Arranged submissions sent) (hknown : Known start username task)
    (hsubmitted : Submitted compile st task submissions) (hmode : Ranking.KnownMode task.scoreMode)
    (group : Namespace) :
    ∃ r, Ranking.rankingMachine.exec start (requests group username sent) = some r ∧
      Delivered start username sent r := by
  induction h with
  | nil => exact ⟨start, rfl, delivered_nil hknown⟩
  | @submission sent s harranged hs ih =>
      obtain ⟨r, hexec, hdelivered⟩ := ih
      obtain ⟨r', hinsert, hvalidated, hnext⟩ :=
        hdelivered.insert_submission hknown hsubmitted harranged hs
      refine ⟨r', ?_, hnext⟩
      rw [requests_concat]
      exact exec_mergeList hexec (validKey_submissionId s) hvalidated hinsert
  | @score sent s harranged hs hsent ih =>
      obtain ⟨r, hexec, hdelivered⟩ := ih
      obtain ⟨hreadable, hnonNeg⟩ := scoreChange_readable (hsubmitted.graded hs) hmode
      have hall : Arranged submissions (sent ++ [.score s]) := harranged.score hs hsent
      obtain ⟨r', hinsert, hvalidated, hnext⟩ := hdelivered.insert_change hknown hsubmitted hs hsent
        (m := .score s) rfl (set_scoreChangeData s) rfl hreadable hnonNeg fun m' hm' c' hc' =>
          hsubmitted.change_unique hall (List.mem_append_left _ hm')
            (List.mem_append_right sent (List.mem_singleton_self (Message.score s))) hc' rfl
      refine ⟨r', ?_, hnext⟩
      obtain ⟨n, hn⟩ := hsubmitted.seconds s hs
      have hkey : Ranking.validKey (scoreChangeId s) = true := by
        rw [scoreChangeId, hn, truncate_natCast]
        exact validKey_change n s (Or.inl rfl)
      rw [requests_concat]
      exact exec_mergeList hexec hkey hvalidated hinsert
  | @token sent s timestamp harranged hs hsent htoken ih =>
      obtain ⟨r, hexec, hdelivered⟩ := ih
      obtain ⟨hreadable, hnonNeg⟩ := tokenChange_readable s timestamp hmode
      have hall : Arranged submissions (sent ++ [.token s timestamp]) :=
        harranged.token hs hsent htoken
      obtain ⟨r', hinsert, hvalidated, hnext⟩ := hdelivered.insert_change hknown hsubmitted hs hsent
        (m := .token s timestamp) rfl (set_tokenChangeData s timestamp) rfl hreadable hnonNeg
          fun m' hm' c' hc' =>
            hsubmitted.change_unique hall (List.mem_append_left _ hm')
              (List.mem_append_right sent (List.mem_singleton_self (Message.token s timestamp))) hc' rfl
      refine ⟨r', ?_, hnext⟩
      obtain ⟨n, hn⟩ := truncate_natural (hsubmitted.tokens s hs timestamp htoken)
      have hkey : Ranking.validKey (tokenChangeId s timestamp) = true := by
        rw [tokenChangeId, hn]
        exact validKey_change n s (Or.inr rfl)
      rw [requests_concat]
      exact exec_mergeList hexec hkey hvalidated hinsert

end Runs

end ScoreOperations
end Service
end ContestManagement
