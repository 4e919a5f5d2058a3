import Mathlib.Data.Finset.Basic
import Mathlib.Data.Finset.Dedup
import Mathlib.Tactic
import ContestManagement.Lib.Relational

/-!
# Referenced files and the orphan sweep

`cms/db/util.py` rebuilds the set of live file digests by a union of join
queries (`enumerate_files`), and `cmscontrib/CleanFiles.py` deletes from the
file store everything outside it.  The queries all start at `Contest` and reach
a row through `Contest.tasks`, while `tasks.contest_id` is nullable: a task
outside every contest is a legal row.

The tables below keep the columns the queries read (keys, foreign keys and
digests).  A `Database` carries its foreign keys, so a dangling reference cannot
be built.  The main result says exactly which databases lose files.
-/

namespace ContestManagement
namespace Db

open Lib

/-- `Digest.TOMBSTONE`: the file existed and was deleted to recover space. -/
def tombstone : String := "x"

structure Contest where
  id : Nat
  deriving DecidableEq, Repr

/-- `contest_id` is nullable: a task may be outside every contest. -/
structure Task where
  id : Nat
  contestId : Option Nat
  deriving DecidableEq, Repr

/-- A row with a digest and a parent task (`Statement`, `Attachment`). -/
structure TaskFile where
  taskId : Nat
  digest : String
  deriving DecidableEq, Repr

structure Dataset where
  id : Nat
  taskId : Nat
  deriving DecidableEq, Repr

structure Manager where
  datasetId : Nat
  digest : String
  deriving DecidableEq, Repr

structure Testcase where
  datasetId : Nat
  input : String
  output : String
  deriving DecidableEq, Repr

structure Submission where
  id : Nat
  taskId : Nat
  deriving DecidableEq, Repr

structure File where
  submissionId : Nat
  digest : String
  deriving DecidableEq, Repr

/-- The primary key of a result is the pair of its submission and dataset. -/
structure SubmissionResult where
  submissionId : Nat
  datasetId : Nat
  deriving DecidableEq, Repr

structure Executable where
  submissionId : Nat
  datasetId : Nat
  digest : String
  deriving DecidableEq, Repr

structure UserTest where
  id : Nat
  taskId : Nat
  input : String
  deriving DecidableEq, Repr

/-- A row with a digest and a parent user test (`UserTestFile`,
`UserTestManager`). -/
structure UserTestFile where
  userTestId : Nat
  digest : String
  deriving DecidableEq, Repr

/-- `output` is null until the user test has been run. -/
structure UserTestResult where
  userTestId : Nat
  datasetId : Nat
  output : Option String
  deriving DecidableEq, Repr

structure UserTestExecutable where
  userTestId : Nat
  datasetId : Nat
  digest : String
  deriving DecidableEq, Repr

/-- The tables that hold digests, with the tables on the way to them. -/
structure Tables where
  contests : List Contest
  tasks : List Task
  statements : List TaskFile
  attachments : List TaskFile
  datasets : List Dataset
  managers : List Manager
  testcases : List Testcase
  submissions : List Submission
  files : List File
  submissionResults : List SubmissionResult
  executables : List Executable
  userTests : List UserTest
  userTestFiles : List UserTestFile
  userTestManagers : List UserTestFile
  userTestResults : List UserTestResult
  userTestExecutables : List UserTestExecutable
  deriving DecidableEq, Repr

/-- The join conditions of the relationships, as SQLAlchemy derives them from
the foreign keys. -/
def onContest (c : Contest) (t : Task) : Bool := t.contestId = some c.id
def onTaskFile (t : Task) (f : TaskFile) : Bool := f.taskId = t.id
def onDataset (t : Task) (d : Dataset) : Bool := d.taskId = t.id
def onManager (d : Dataset) (m : Manager) : Bool := m.datasetId = d.id
def onTestcase (d : Dataset) (t : Testcase) : Bool := t.datasetId = d.id
def onSubmission (t : Task) (s : Submission) : Bool := s.taskId = t.id
def onFile (s : Submission) (f : File) : Bool := f.submissionId = s.id
def onSubmissionResult (s : Submission) (r : SubmissionResult) : Bool := r.submissionId = s.id
def onExecutable (r : SubmissionResult) (e : Executable) : Bool :=
  e.submissionId = r.submissionId && e.datasetId = r.datasetId
def onUserTest (t : Task) (u : UserTest) : Bool := u.taskId = t.id
def onUserTestFile (u : UserTest) (f : UserTestFile) : Bool := f.userTestId = u.id
def onUserTestResult (u : UserTest) (r : UserTestResult) : Bool := r.userTestId = u.id
def onUserTestExecutable (r : UserTestResult) (e : UserTestExecutable) : Bool :=
  e.userTestId = r.userTestId && e.datasetId = r.datasetId

/-- Every row of `child` has a parent in `parent`. -/
def Refers {α β : Type} (on : α → β → Bool) (parent : List α) (child : List β) : Prop :=
  ∀ b ∈ child, ∃ a ∈ parent, on a b = true

/-- The tables together with the foreign keys PostgreSQL enforces on them.
`tasks.contest_id` is the only nullable one. -/
structure Database extends Tables where
  fkTask : ∀ t ∈ tasks, ∀ c, t.contestId = some c → ∃ contest ∈ contests, contest.id = c
  fkStatement : Refers onTaskFile tasks statements
  fkAttachment : Refers onTaskFile tasks attachments
  fkDataset : Refers onDataset tasks datasets
  fkManager : Refers onManager datasets managers
  fkTestcase : Refers onTestcase datasets testcases
  fkSubmission : Refers onSubmission tasks submissions
  fkFile : Refers onFile submissions files
  fkSubmissionResult : Refers onSubmissionResult submissions submissionResults
  fkExecutable : Refers onExecutable submissionResults executables
  fkUserTest : Refers onUserTest tasks userTests
  fkUserTestFile : Refers onUserTestFile userTests userTestFiles
  fkUserTestManager : Refers onUserTestFile userTests userTestManagers
  fkUserTestResult : Refers onUserTestResult userTests userTestResults
  fkUserTestExecutable : Refers onUserTestExecutable userTestResults userTestExecutables

/-! ## The queries of `enumerate_files` -/

/-- The queries below the statements, attachments and datasets of `taskQ`. -/
def taskQueries (db : Tables) (taskQ : List Task) : List (List String) :=
  let datasetQ := joinRight onDataset taskQ db.datasets
  [(joinRight onTaskFile taskQ db.statements).map TaskFile.digest,
   (joinRight onTaskFile taskQ db.attachments).map TaskFile.digest,
   (joinRight onManager datasetQ db.managers).map Manager.digest,
   (joinRight onTestcase datasetQ db.testcases).map Testcase.input,
   (joinRight onTestcase datasetQ db.testcases).map Testcase.output]

/-- The queries below the submissions of `taskQ`. -/
def submissionQueries (db : Tables) (taskQ : List Task) (skipGenerated : Bool) :
    List (List String) :=
  let submissionQ := joinRight onSubmission taskQ db.submissions
  [(joinRight onFile submissionQ db.files).map File.digest] ++
    if skipGenerated then []
    else
      [(joinRight onExecutable (joinRight onSubmissionResult submissionQ db.submissionResults)
        db.executables).map Executable.digest]

/-- The queries below the user tests of `taskQ`. -/
def userTestQueries (db : Tables) (taskQ : List Task) (skipGenerated : Bool) :
    List (List String) :=
  let userTestQ := joinRight onUserTest taskQ db.userTests
  let userTestResultQ := joinRight onUserTestResult userTestQ db.userTestResults
  [userTestQ.map UserTest.input,
   (joinRight onUserTestFile userTestQ db.userTestFiles).map UserTestFile.digest,
   (joinRight onUserTestFile userTestQ db.userTestManagers).map UserTestFile.digest] ++
    if skipGenerated then []
    else
      [(joinRight onUserTestExecutable userTestResultQ db.userTestExecutables).map
        UserTestExecutable.digest,
       -- `UserTestResult.output != None`, then the output column.
       userTestResultQ.filterMap UserTestResult.output]

/-- `enumerate_files`: the digests referenced by the contest, or by any contest
when none is given, except the tombstone. -/
def enumerateFiles (db : Tables) (contest : Option Nat)
    (skipSubmissions skipUserTests skipUsers skipGenerated : Bool) : Finset String :=
  let contestQ :=
    match contest with
    | none => db.contests
    | some id => db.contests.filter fun c => c.id = id
  let taskQ := joinRight onContest contestQ db.tasks
  let queries :=
    taskQueries db taskQ ++
    (if !skipSubmissions && !skipUsers then submissionQueries db taskQ skipGenerated else []) ++
    (if !skipUserTests && !skipUsers then userTestQueries db taskQ skipGenerated else [])
  queries.flatten.toFinset.erase tombstone

/-- `clean_files` on the digests present in the file store; the result is the
store left behind.  `get_size` of an orphan raises on the tombstone, before
anything is deleted. -/
def cleanFiles (db : Tables) (store : Finset String) (dryRun : Bool) :
    Except String (Finset String) :=
  let orphans := store \ enumerateFiles db none false false false false
  if tombstone ∈ orphans then .error "TombstoneError"
  else if dryRun then .ok store
  else .ok (store \ orphans)

/-! ## What the rows refer to -/

/-- Every digest stored in a row of the database, read table by table. -/
def referencedDigests (db : Tables) : List String :=
  db.statements.map TaskFile.digest ++ db.attachments.map TaskFile.digest ++
  db.managers.map Manager.digest ++ db.testcases.map Testcase.input ++
  db.testcases.map Testcase.output ++ db.files.map File.digest ++
  db.executables.map Executable.digest ++ db.userTests.map UserTest.input ++
  db.userTestFiles.map UserTestFile.digest ++ db.userTestManagers.map UserTestFile.digest ++
  db.userTestExecutables.map UserTestExecutable.digest ++
  db.userTestResults.filterMap UserTestResult.output

/-- The digests of the rows below the given tasks. -/
def filesUnder (db : Tables) (taskQ : List Task) : List String :=
  (taskQueries db taskQ ++ submissionQueries db taskQ false ++
    userTestQueries db taskQ false).flatten

/-- The files of one task. -/
def taskFiles (db : Tables) (task : Task) : List String :=
  filesUnder db [task]

theorem enumerateFiles_all_eq (db : Tables) :
    enumerateFiles db none false false false false =
      (filesUnder db (joinRight onContest db.contests db.tasks)).toFinset.erase tombstone := rfl

theorem filesUnder_rowwise (db : Tables) : Rowwise (filesUnder db) := by
  have hDataset : Rowwise fun tasks => joinRight onDataset tasks db.datasets :=
    Rowwise.id.joinRight _ _
  have hSubmission : Rowwise fun tasks => joinRight onSubmission tasks db.submissions :=
    Rowwise.id.joinRight _ _
  have hUserTest : Rowwise fun tasks => joinRight onUserTest tasks db.userTests :=
    Rowwise.id.joinRight _ _
  have hResult := hUserTest.joinRight onUserTestResult db.userTestResults
  have hTask : Rowwise fun tasks => (taskQueries db tasks).flatten := by
    simp only [taskQueries, List.flatten_cons, List.flatten_nil]
    exact ((Rowwise.id.joinRight _ _).map _).append (((Rowwise.id.joinRight _ _).map _).append
      (((hDataset.joinRight _ _).map _).append (((hDataset.joinRight _ _).map _).append
        (((hDataset.joinRight _ _).map _).append .nil))))
  have hSubmissions : Rowwise fun tasks => (submissionQueries db tasks false).flatten := by
    simp only [submissionQueries, Bool.false_eq_true, if_false, List.cons_append,
      List.nil_append, List.flatten_cons, List.flatten_nil]
    exact ((hSubmission.joinRight _ _).map _).append
      ((((hSubmission.joinRight _ _).joinRight _ _).map _).append .nil)
  have hUserTests : Rowwise fun tasks => (userTestQueries db tasks false).flatten := by
    simp only [userTestQueries, Bool.false_eq_true, if_false, List.cons_append,
      List.nil_append, List.flatten_cons, List.flatten_nil]
    exact (hUserTest.map _).append (((hUserTest.joinRight _ _).map _).append
      (((hUserTest.joinRight _ _).map _).append (((hResult.joinRight _ _).map _).append
        ((hResult.filterMap _).append .nil))))
  intro tasks d
  unfold filesUnder
  simpa only [List.flatten_append] using (hTask.append hSubmissions).append hUserTests tasks d

/-- A table whose rows all have a parent loses nothing in the join. -/
theorem mem_joinRight_iff_of_refers {α β : Type} {on : α → β → Bool} {parent parent' : List α}
    {child : List β} (hfk : Refers on parent child) (hsame : ∀ a, a ∈ parent' ↔ a ∈ parent)
    (b : β) : b ∈ joinRight on parent' child ↔ b ∈ child := by
  rw [mem_joinRight_iff]
  constructor
  · exact fun h => h.1
  · intro hb
    obtain ⟨a, ha, hon⟩ := hfk b hb
    exact ⟨hb, a, (hsame a).mpr ha, hon⟩

/-- The foreign keys put every stored digest below some task. -/
theorem mem_filesUnder_tasks_iff (db : Database) (d : String) :
    d ∈ filesUnder db.toTables db.tasks ↔ d ∈ referencedDigests db.toTables := by
  have hTask : ∀ t, t ∈ db.tasks ↔ t ∈ db.tasks := fun _ => Iff.rfl
  have hDataset := mem_joinRight_iff_of_refers db.fkDataset hTask
  have hSubmission := mem_joinRight_iff_of_refers db.fkSubmission hTask
  have hResult := mem_joinRight_iff_of_refers db.fkSubmissionResult hSubmission
  have hUserTest := mem_joinRight_iff_of_refers db.fkUserTest hTask
  have hUserTestResult := mem_joinRight_iff_of_refers db.fkUserTestResult hUserTest
  simp only [filesUnder, taskQueries, submissionQueries, userTestQueries, referencedDigests,
    Bool.false_eq_true, if_false, List.cons_append, List.nil_append, List.flatten_cons,
    List.flatten_nil, List.append_nil, List.mem_append, List.mem_map, List.mem_filterMap,
    mem_joinRight_iff_of_refers db.fkStatement hTask,
    mem_joinRight_iff_of_refers db.fkAttachment hTask,
    mem_joinRight_iff_of_refers db.fkManager hDataset,
    mem_joinRight_iff_of_refers db.fkTestcase hDataset,
    mem_joinRight_iff_of_refers db.fkFile hSubmission,
    mem_joinRight_iff_of_refers db.fkExecutable hResult,
    mem_joinRight_iff_of_refers db.fkUserTestFile hUserTest,
    mem_joinRight_iff_of_refers db.fkUserTestManager hUserTest,
    mem_joinRight_iff_of_refers db.fkUserTestExecutable hUserTestResult,
    hUserTest, hUserTestResult, or_assoc]

/-- The tasks the queries start from are the ones inside a contest. -/
theorem mem_contestTasks_iff (db : Database) (t : Task) :
    t ∈ joinRight onContest db.contests db.tasks ↔ t ∈ db.tasks ∧ t.contestId ≠ none := by
  rw [mem_joinRight_iff]
  constructor
  · rintro ⟨ht, c, -, hon⟩
    exact ⟨ht, by simp_all [onContest]⟩
  · rintro ⟨ht, hne⟩
    obtain ⟨c, hc⟩ := Option.ne_none_iff_exists'.mp hne
    obtain ⟨contest, hmem, rfl⟩ := db.fkTask t ht c hc
    exact ⟨ht, contest, hmem, by simp [onContest, hc]⟩

theorem mem_enumerateFiles_iff (db : Database) (d : String) :
    d ∈ enumerateFiles db.toTables none false false false false ↔
      d ≠ tombstone ∧ ∃ t ∈ db.tasks, t.contestId ≠ none ∧ d ∈ taskFiles db.toTables t := by
  rw [enumerateFiles_all_eq, Finset.mem_erase, List.mem_toFinset, filesUnder_rowwise]
  simp only [mem_contestTasks_iff, taskFiles, and_assoc]

/-- A digest is stored somewhere iff it is a file of some task. -/
theorem mem_referencedDigests_iff (db : Database) (d : String) :
    d ∈ referencedDigests db.toTables ↔ ∃ t ∈ db.tasks, d ∈ taskFiles db.toTables t := by
  rw [← mem_filesUnder_tasks_iff, filesUnder_rowwise]
  rfl

/-! ## Which files survive the sweep -/

/-- What a sweep keeps: the files the queries found. -/
theorem mem_of_cleanFiles_ok {db : Tables} {store left : Finset String} {dryRun : Bool}
    (h : cleanFiles db store dryRun = .ok left) {d : String} (hd : d ∈ store)
    (hfound : d ∈ enumerateFiles db none false false false false) : d ∈ left := by
  have hsafe : tombstone ∉ store \ enumerateFiles db none false false false false := by
    intro horphan
    simp [cleanFiles, horphan] at h
  cases dryRun with
  | true =>
      simp only [cleanFiles, if_neg hsafe, if_true, Except.ok.injEq] at h
      exact h ▸ hd
  | false =>
      simp only [cleanFiles, if_neg hsafe, Bool.false_eq_true, if_false, Except.ok.injEq] at h
      simp [← h, hd, hfound]

/-- A sweep that finishes never had the tombstone in the store. -/
theorem tombstone_notMem_of_cleanFiles_ok {db : Tables} {store left : Finset String}
    {dryRun : Bool} (h : cleanFiles db store dryRun = .ok left) : tombstone ∉ store := by
  intro hmem
  have horphan : tombstone ∈ store \ enumerateFiles db none false false false false := by
    simp [hmem, enumerateFiles]
  simp [cleanFiles, horphan] at h

/-- The sweep is safe exactly for the databases in which each file of a task
outside every contest is also a file of a task inside one. -/
theorem enumerateFiles_covers_iff (db : Database) :
    ((∀ d ∈ referencedDigests db.toTables, d ≠ tombstone →
        d ∈ enumerateFiles db.toTables none false false false false) ∧
      ∀ (store left : Finset String) (dryRun : Bool),
        cleanFiles db.toTables store dryRun = .ok left →
        ∀ d ∈ store, d ∈ referencedDigests db.toTables → d ∈ left) ↔
      ∀ t ∈ db.tasks, t.contestId = none →
        ∀ d ∈ taskFiles db.toTables t, d ≠ tombstone →
          ∃ t' ∈ db.tasks, t'.contestId ≠ none ∧ d ∈ taskFiles db.toTables t' := by
  constructor
  · rintro ⟨hcover, -⟩ t ht - d hd hne
    have hfound := hcover d ((mem_referencedDigests_iff db d).mpr ⟨t, ht, hd⟩) hne
    exact ((mem_enumerateFiles_iff db d).mp hfound).2
  · intro hshared
    have hcover : ∀ d ∈ referencedDigests db.toTables, d ≠ tombstone →
        d ∈ enumerateFiles db.toTables none false false false false := by
      intro d hd hne
      obtain ⟨t, ht, hfile⟩ := (mem_referencedDigests_iff db d).mp hd
      rw [mem_enumerateFiles_iff]
      by_cases hnone : t.contestId = none
      · exact ⟨hne, hshared t ht hnone d hfile hne⟩
      · exact ⟨hne, t, ht, hnone, hfile⟩
    refine ⟨hcover, ?_⟩
    intro store left dryRun hclean d hd href
    have hne : d ≠ tombstone := by
      rintro rfl
      exact tombstone_notMem_of_cleanFiles_ok hclean hd
    exact mem_of_cleanFiles_ok hclean hd (hcover d href hne)

/-- One task outside every contest, with a statement of its own. -/
def strayTask : Database where
  contests := []
  tasks := [⟨1, none⟩]
  statements := [⟨1, "da39a3ee5e6b4b0d3255bfef95601890afd80709"⟩]
  attachments := []
  datasets := []
  managers := []
  testcases := []
  submissions := []
  files := []
  submissionResults := []
  executables := []
  userTests := []
  userTestFiles := []
  userTestManagers := []
  userTestResults := []
  userTestExecutables := []
  fkTask := by simp
  fkStatement := by simp [Refers, onTaskFile]
  fkAttachment := by simp [Refers]
  fkDataset := by simp [Refers]
  fkManager := by simp [Refers]
  fkTestcase := by simp [Refers]
  fkSubmission := by simp [Refers]
  fkFile := by simp [Refers]
  fkSubmissionResult := by simp [Refers]
  fkExecutable := by simp [Refers]
  fkUserTest := by simp [Refers]
  fkUserTestFile := by simp [Refers]
  fkUserTestManager := by simp [Refers]
  fkUserTestResult := by simp [Refers]
  fkUserTestExecutable := by simp [Refers]

/-- The statement of the stray task is not enumerated, and the sweep deletes it. -/
theorem cleanFiles_deletes_stray_statement :
    "da39a3ee5e6b4b0d3255bfef95601890afd80709" ∈ referencedDigests strayTask.toTables ∧
      "da39a3ee5e6b4b0d3255bfef95601890afd80709" ≠ tombstone ∧
      "da39a3ee5e6b4b0d3255bfef95601890afd80709" ∉
        enumerateFiles strayTask.toTables none false false false false ∧
      cleanFiles strayTask.toTables {"da39a3ee5e6b4b0d3255bfef95601890afd80709"} false =
        .ok ∅ := by
  refine ⟨?_, ?_, ?_, ?_⟩
  · simp [referencedDigests, strayTask]
  · simp [tombstone]
  · simp [enumerateFiles, strayTask, taskQueries, submissionQueries, userTestQueries, joinRight]
  · decide

end Db
end ContestManagement
