import ContestManagement.Service.ScoringService

/-!
# Stored scores belong to the stored evaluations

What each transaction knows of the committed result while it runs, and what follows for
the committed states.  Scoring knows the row it has locked, and the evaluations when the
result is evaluated, since a complete set of evaluations only changes together with the
row.  EvaluationService knows that the row it has updated fits the evaluations it sees.

There is one way to lose this: to set the evaluation outcome of a result that has been
scored for its failed compilation.
-/

namespace ContestManagement
namespace Service

open Lib Grading

variable {setup : ScoringSetup}

/-- The evaluations belong to distinct testcases of the dataset. -/
structure Recorded (setup : ScoringSetup) (evaluations : List Evaluation) : Prop where
  distinct : (evaluations.map Evaluation.codename).Nodup
  known : ∀ codename ∈ evaluations.map Evaluation.codename, codename ∈ setup.codenames

/-- The score of a row is the one of these evaluations, and an evaluated result has them
all. -/
structure Consistent (setup : ScoringSetup) (row : ResultRow) (evaluations : List Evaluation) :
    Prop where
  graded : row.scored → row.compilationFailed ∨ row.evaluated
  fits : ∀ scores ∈ row.scores, setup.computeScore row.evaluated evaluations = .ok scores
  complete : row.evaluated → evaluations.length = setup.codenames.length

namespace Recorded

variable {evaluations : List Evaluation}

theorem nil : Recorded setup [] :=
  ⟨List.nodup_nil, by simp⟩

theorem delete (h : Recorded setup evaluations) (blanking : Blanking) :
    Recorded setup (blanking.delete evaluations) := by
  cases blanking with
  | compilation => exact nil
  | compiled success => exact nil
  | evaluation testcase =>
      cases testcase with
      | none => exact nil
      | some codename =>
          have hsub : ((evaluations.filter fun e => e.codename ≠ codename).map
              Evaluation.codename).Sublist (evaluations.map Evaluation.codename) :=
            List.filter_sublist.map _
          exact ⟨h.distinct.sublist hsub, fun c hc => h.known c (hsub.subset hc)⟩

theorem insert (h : Recorded setup evaluations) {e : Evaluation}
    (hknown : e.codename ∈ setup.codenames)
    (hnew : e.codename ∉ evaluations.map Evaluation.codename) :
    Recorded setup (evaluations ++ [e]) := by
  constructor
  · rw [List.map_append, List.nodup_append]
    refine ⟨h.distinct, by simp, ?_⟩
    rintro c hc c' hc' rfl
    rw [List.map_singleton, List.mem_singleton] at hc'
    exact hnew (hc' ▸ hc)
  · intro c hc
    rw [List.map_append, List.map_singleton, List.mem_append, List.mem_singleton] at hc
    rcases hc with hc | rfl
    · exact h.known c hc
    · exact hknown

/-- A complete result has no room for another evaluation. -/
theorem not_complete (h : Recorded setup evaluations) {codename : String}
    (hknown : codename ∈ setup.codenames)
    (hnew : codename ∉ evaluations.map Evaluation.codename) :
    evaluations.length ≠ setup.codenames.length := by
  intro hlength
  have hnodup : (codename :: evaluations.map Evaluation.codename).Nodup :=
    List.nodup_cons.2 ⟨hnew, h.distinct⟩
  have hsubset : codename :: evaluations.map Evaluation.codename ⊆ setup.codenames :=
    List.cons_subset.2 ⟨hknown, h.known⟩
  have hle := (hnodup.subperm hsubset).length_le
  rw [List.length_cons, List.length_map] at hle
  omega

end Recorded

/-- Evaluations are read only for an evaluated result. -/
theorem ScoringSetup.computeScore_congr {evaluated : Bool} {first second : List Evaluation}
    (h : evaluated → first = second) :
    setup.computeScore evaluated first = setup.computeScore evaluated second := by
  cases evaluated with
  | true => rw [h rfl]
  | false => exact ScoreType.computeScore_unevaluated rfl rfl _

namespace Consistent

variable {row : ResultRow} {evaluations evaluations' : List Evaluation}

theorem congr (h : Consistent setup row evaluations)
    (heq : row.evaluated → evaluations' = evaluations) : Consistent setup row evaluations' where
  graded := h.graded
  fits scores hscores := by
    rw [ScoringSetup.computeScore_congr heq]
    exact h.fits scores hscores
  complete hevaluated := heq hevaluated ▸ h.complete hevaluated

/-- A row that is neither scored nor evaluated fits anything. -/
theorem of_blank (hscores : row.scores = none) (hevaluated : row.evaluated = false) :
    Consistent setup row evaluations where
  graded h := by simp [ResultRow.scored, hscores] at h
  fits scores h := by simp [hscores] at h
  complete h := by simp [hevaluated] at h

theorem invalidateScore (h : Consistent setup row evaluations) :
    Consistent setup row.invalidateScore evaluations where
  graded hscored := by simp [ResultRow.scored, ResultRow.invalidateScore] at hscored
  fits scores hscores := by simp [ResultRow.invalidateScore] at hscores
  complete := h.complete

/-- Setting the evaluation outcome of a result with all its evaluations, unless it was
scored for its compilation. -/
theorem setEvaluationOutcome (h : Consistent setup row evaluations)
    (hcomplete : evaluations.length = setup.codenames.length) (hevaluated : row.evaluated = false)
    (hok : ¬(row.scored ∧ row.compilationFailed)) :
    Consistent setup row.setEvaluationOutcome evaluations := by
  have hscores : row.scores = none := by
    cases hrow : row.scores with
    | none => rfl
    | some scores =>
        have hscored : row.scored = true := by rw [ResultRow.scored, hrow, Option.isSome_some]
        have hgraded := h.graded hscored
        rw [hevaluated] at hgraded
        exact absurd ⟨hscored, hgraded.resolve_right Bool.false_ne_true⟩ hok
  constructor
  · intro hscored
    simp [ResultRow.scored, ResultRow.setEvaluationOutcome, hscores] at hscored
  · intro scores hmem
    simp [ResultRow.setEvaluationOutcome, hscores] at hmem
  · intro _
    exact hcomplete

end Consistent

theorem Blanking.update_scores (blanking : Blanking) (row : ResultRow) :
    (blanking.update row).scores = none := by
  cases blanking <;> rfl

theorem Blanking.update_evaluated (blanking : Blanking) (row : ResultRow) :
    (blanking.update row).evaluated = false := by
  cases blanking <;> rfl

/-! ### The invariant -/

/-- What `_score_sync` knows of the committed result. -/
def ScoringAgrees (setup : ScoringSetup) (row : ResultRow) (evaluations : List Evaluation) :
    Scoring → Prop
  | .idle => True
  | .locked locked => locked = row
  | .loaded locked seen =>
      locked = row ∧ row.needsScoring ∧ (row.evaluated → seen = evaluations)
  | .written scores =>
      row.needsScoring ∧ setup.computeScore row.evaluated evaluations = .ok scores

/-- What a transaction of EvaluationService knows.  Before its first update it has only
added evaluations, which an evaluated result does not let it do. -/
def ServiceAgrees (setup : ScoringSetup) (row : ResultRow) (evaluations : List Evaluation)
    (tx : Transaction) : Prop :=
  match tx.row, tx.owed with
  | none, none => row.evaluated → tx.evaluations = evaluations
  | some updated, none => Consistent setup updated tx.evaluations
  | some updated, some (.deletion _) => updated.scores = none ∧ updated.evaluated = false
  | none, some (.deletion _) => False
  | _, some (.update _) => True

structure Agreed (setup : ScoringSetup) (db : Database) : Prop where
  consistent : Consistent setup db.row db.evaluations
  recorded : Recorded setup db.evaluations
  scoring : ScoringAgrees setup db.row db.evaluations db.scoring
  service : ∀ tx ∈ db.service, Recorded setup tx.evaluations ∧
    ServiceAgrees setup db.row db.evaluations tx
  /-- One transaction holds the lock on the row. -/
  exclusive : ∀ tx ∈ db.service, tx.row.isSome → db.scoring = .idle ∧ db.clearing = false
  clearing : db.clearing → db.scoring = .idle

theorem ScoringAgrees.congr {row : ResultRow} {evaluations evaluations' : List Evaluation}
    {scoring : Scoring} (h : ScoringAgrees setup row evaluations scoring)
    (heq : row.evaluated → evaluations' = evaluations) :
    ScoringAgrees setup row evaluations' scoring := by
  cases scoring with
  | idle => exact h
  | locked locked => exact h
  | loaded locked seen =>
      obtain ⟨hrow, hneeds, hseen⟩ := h
      exact ⟨hrow, hneeds, fun hevaluated => (hseen hevaluated).trans (heq hevaluated).symm⟩
  | written scores =>
      obtain ⟨hneeds, hscores⟩ := h
      refine ⟨hneeds, ?_⟩
      rw [ScoringSetup.computeScore_congr heq]
      exact hscores

/-- The committed row matters to EvaluationService only by its evaluation outcome. -/
theorem ServiceAgrees.congr_row {row row' : ResultRow} {evaluations : List Evaluation}
    {tx : Transaction} (h : ServiceAgrees setup row evaluations tx)
    (heq : row'.evaluated = row.evaluated) : ServiceAgrees setup row' evaluations tx := by
  obtain ⟨updated, seen, owed⟩ := tx
  unfold ServiceAgrees at h ⊢
  rw [heq]
  exact h

theorem Agreed.init : Agreed setup ⟨⟨none, false, none⟩, [], .idle, false, none⟩ where
  consistent := .of_blank rfl rfl
  recorded := .nil
  scoring := trivial
  service := by simp
  exclusive := by simp
  clearing := by simp

namespace Database

variable {db db' : Database} {tx : Transaction}

theorem idle_of_rowFree (h : db.rowFree) :
    db.scoring = .idle ∧ db.clearing = false ∧ ∀ tx ∈ db.service, tx.row = none := by
  simp only [rowFree, Bool.and_eq_true, Bool.not_eq_true'] at h
  obtain ⟨⟨hidle, hclearing⟩, hservice⟩ := h
  refine ⟨?_, hclearing, ?_⟩
  · cases hscoring : db.scoring with
    | idle => rfl
    | _ => simp [hscoring, Scoring.isIdle] at hidle
  · intro tx htx
    have hall := (Option.all_eq_true _ _).1 hservice tx htx
    exact Option.isNone_iff_eq_none.1 hall

/-- An `UPDATE` that went through holds the lock alone. -/
theorem updateRow_spec (hdb : Agreed setup db) (hservice : db.service = some tx)
    {update : ResultRow → ResultRow} {tx' : Transaction}
    (h : db.updateRow tx update = some tx') :
    tx' = { tx with row := some (update (db.rowSeenBy tx)) } ∧
      db.scoring = .idle ∧ db.clearing = false := by
  unfold updateRow at h
  split at h
  case isFalse => cases h
  case isTrue hfree =>
    refine ⟨(Option.some.inj h).symm, ?_⟩
    rcases Bool.or_eq_true _ _ ▸ hfree with hheld | hfree
    · exact hdb.exclusive tx hservice hheld
    · obtain ⟨hidle, hclearing, -⟩ := idle_of_rowFree hfree
      exact ⟨hidle, hclearing⟩

end Database

/-! ### Every statement keeps it -/

/-- The statement does not set the evaluation outcome of a result that has been scored
for its failed compilation. -/
def LeavesFailures (db : Database) : Statement → Prop
  | .setEvaluationOutcome => ∀ tx ∈ db.service,
      ¬((db.rowSeenBy tx).scored ∧ (db.rowSeenBy tx).compilationFailed ∧
        (db.rowSeenBy tx).evaluated = false)
  | _ => True

section Statements

variable {db db' : Database} {tx : Transaction}

/-- Replacing the transaction by one that knows as much. -/
theorem Agreed.withService (hdb : Agreed setup db) {tx' : Transaction}
    (hrecorded : Recorded setup tx'.evaluations)
    (hagrees : ServiceAgrees setup db.row db.evaluations tx')
    (hexclusive : tx'.row.isSome → db.scoring = .idle ∧ db.clearing = false) :
    Agreed setup { db with service := some tx' } where
  consistent := hdb.consistent
  recorded := hdb.recorded
  scoring := hdb.scoring
  service := by
    rintro _ ⟨⟩
    exact ⟨hrecorded, hagrees⟩
  exclusive := by
    rintro _ ⟨⟩
    exact hexclusive
  clearing := hdb.clearing

/-- A row that fits the evaluations the transaction sees, once nothing is owed. -/
theorem Agreed.seen (hdb : Agreed setup db) (hservice : db.service = some tx)
    (howed : tx.owed = none) : Consistent setup (db.rowSeenBy tx) tx.evaluations := by
  obtain ⟨-, hagrees⟩ := hdb.service tx hservice
  unfold ServiceAgrees at hagrees
  unfold Database.rowSeenBy
  rw [howed] at hagrees
  cases hrow : tx.row with
  | none =>
      rw [hrow] at hagrees
      exact hdb.consistent.congr hagrees
  | some updated =>
      rw [hrow] at hagrees
      exact hagrees

theorem Agreed.finishFlush (hdb : Agreed setup db) (hservice : db.service = some tx)
    (h : Database.stepService setup db tx .finishFlush = some db') : Agreed setup db' := by
  obtain ⟨hrecorded, hagrees⟩ := hdb.service tx hservice
  unfold ServiceAgrees at hagrees
  unfold Database.stepService at h
  cases howed : tx.owed with
  | none => simp only [howed, reduceCtorEq] at h
  | some owed =>
      cases owed with
      | update blanking =>
          simp only [howed, Option.map_eq_some_iff] at h
          obtain ⟨tx', hupdate, rfl⟩ := h
          obtain ⟨rfl, hlock⟩ := Database.updateRow_spec hdb hservice hupdate
          exact hdb.withService hrecorded
            (.of_blank (blanking.update_scores _) (blanking.update_evaluated _)) fun _ => hlock
      | deletion blanking =>
          simp only [howed, Option.some.injEq] at h
          subst h
          cases hrow : tx.row with
          | none => simp only [hrow, howed] at hagrees
          | some updated =>
              simp only [hrow, howed] at hagrees
              have hlock := hdb.exclusive tx hservice (by rw [hrow, Option.isSome_some])
              exact hdb.withService (hrecorded.delete blanking)
                (.of_blank hagrees.1 hagrees.2) fun _ => hlock

theorem Agreed.insertEvaluation (hdb : Agreed setup db) (hservice : db.service = some tx)
    {e : Evaluation} (howed : tx.owed = none) (hknown : e.codename ∈ setup.codenames)
    (hnew : e.codename ∉ tx.evaluations.map Evaluation.codename) :
    Agreed setup { db with service := some { tx with evaluations := tx.evaluations ++ [e] } } := by
  obtain ⟨hrecorded, -⟩ := hdb.service tx hservice
  -- There was room for it, so the row that the transaction sees is not evaluated.
  have hseen := hdb.seen hservice howed
  have hevaluated : ¬(db.rowSeenBy tx).evaluated := fun h =>
    hrecorded.not_complete hknown hnew (hseen.complete h)
  refine hdb.withService (hrecorded.insert hknown hnew) ?_ (hdb.exclusive tx hservice)
  unfold ServiceAgrees
  unfold Database.rowSeenBy at hseen hevaluated
  rw [howed]
  cases hrow : tx.row with
  | none =>
      rw [hrow] at hevaluated
      exact fun h => absurd h hevaluated
  | some updated =>
      rw [hrow] at hseen hevaluated
      exact Consistent.congr hseen fun h => absurd h hevaluated

theorem Agreed.commit (hdb : Agreed setup db) (hservice : db.service = some tx)
    (howed : tx.owed = none) :
    Agreed setup { db with
      row := db.rowSeenBy tx, evaluations := tx.evaluations, service := none } := by
  obtain ⟨hrecorded, hagrees⟩ := hdb.service tx hservice
  refine ⟨hdb.seen hservice howed, hrecorded, ?_, by simp, by simp, hdb.clearing⟩
  unfold ServiceAgrees at hagrees
  unfold Database.rowSeenBy
  rw [howed] at hagrees
  cases hrow : tx.row with
  | none =>
      rw [hrow] at hagrees
      exact hdb.scoring.congr hagrees
  | some updated =>
      have hidle := (hdb.exclusive tx hservice (by rw [hrow, Option.isSome_some])).1
      simp only [hidle, ScoringAgrees]

/-- The statements of EvaluationService, but for those that have a lemma of their own. -/
theorem Agreed.stepService (hdb : Agreed setup db) (hservice : db.service = some tx)
    {statement : Statement} (hok : LeavesFailures db statement)
    (h : Database.stepService setup db tx statement = some db') : Agreed setup db' := by
  obtain ⟨hrecorded, -⟩ := hdb.service tx hservice
  cases statement with
  | finishFlush => exact hdb.finishFlush hservice h
  | blankRow blanking =>
      simp only [Database.stepService] at h
      split at h
      case isFalse => cases h
      case isTrue =>
        rw [Option.map_eq_some_iff] at h
        obtain ⟨tx', hupdate, rfl⟩ := h
        obtain ⟨rfl, hlock⟩ := Database.updateRow_spec hdb hservice hupdate
        exact hdb.withService hrecorded
          ⟨blanking.update_scores _, blanking.update_evaluated _⟩ fun _ => hlock
  | deleteEvaluations blanking =>
      simp only [Database.stepService] at h
      split at h
      case isFalse => cases h
      case isTrue =>
        cases h
        refine hdb.withService (hrecorded.delete blanking) ?_ (hdb.exclusive tx hservice)
        unfold ServiceAgrees
        cases tx.row <;> trivial
  | insertEvaluation e =>
      simp only [Database.stepService] at h
      split at h
      case isFalse => cases h
      case isTrue howed =>
        split at h
        case isFalse =>
          cases h
          exact hdb
        case isTrue hinsert =>
          cases h
          exact hdb.insertEvaluation hservice (Option.isNone_iff_eq_none.1 howed)
            hinsert.1 hinsert.2
  | setEvaluationOutcome =>
      simp only [Database.stepService] at h
      split at h
      case isFalse => cases h
      case isTrue hcount =>
        obtain ⟨howed, hcomplete⟩ := hcount
        rw [Option.isNone_iff_eq_none] at howed
        split at h
        case isTrue =>
          cases h
          exact hdb
        case isFalse hevaluated =>
          rw [Option.map_eq_some_iff] at h
          obtain ⟨tx', hupdate, rfl⟩ := h
          obtain ⟨rfl, hlock⟩ := Database.updateRow_spec hdb hservice hupdate
          rw [Bool.not_eq_true] at hevaluated
          have hfailed : ¬((db.rowSeenBy tx).scored ∧ (db.rowSeenBy tx).compilationFailed) :=
            fun hscored => hok tx hservice ⟨hscored.1, hscored.2, hevaluated⟩
          have hset := (hdb.seen hservice howed).setEvaluationOutcome hcomplete hevaluated hfailed
          refine hdb.withService hrecorded ?_ fun _ => hlock
          simp only [ServiceAgrees, howed]
          exact hset
  | commit =>
      simp only [Database.stepService] at h
      split at h
      case isFalse => cases h
      case isTrue howed =>
        cases h
        exact hdb.commit hservice (Option.isNone_iff_eq_none.1 howed)
  | rollback =>
      cases h
      exact ⟨hdb.consistent, hdb.recorded, hdb.scoring, by simp, by simp, hdb.clearing⟩
  | _ => cases h

/-- `_score_sync` moves on while it holds the lock. -/
theorem Agreed.withScoring (hdb : Agreed setup db) {scoring : Scoring}
    (hheld : db.scoring ≠ .idle)
    (hscoring : ScoringAgrees setup db.row db.evaluations scoring) :
    Agreed setup { db with scoring := scoring } where
  consistent := hdb.consistent
  recorded := hdb.recorded
  scoring := hscoring
  service := hdb.service
  exclusive tx htx hrow := absurd (hdb.exclusive tx htx hrow).1 hheld
  clearing h := absurd (hdb.clearing h) hheld

/-- The row gets the scores that belong to the committed evaluations. -/
theorem Agreed.commitScores (hdb : Agreed setup db) {scores : Scores}
    (hscoring : db.scoring = .written scores) :
    Agreed setup { db with row := { db.row with scores := some scores }, scoring := .idle } := by
  have hwritten := hdb.scoring
  rw [hscoring] at hwritten
  obtain ⟨hneeds, hcompute⟩ := hwritten
  have hready : db.row.compilationFailed ∨ db.row.evaluated := by
    simp only [ResultRow.needsScoring, Bool.and_eq_true, Bool.or_eq_true] at hneeds
    exact hneeds.1
  have hheld : db.scoring ≠ .idle := by
    rw [hscoring]
    exact Scoring.noConfusion
  refine ⟨⟨fun _ => hready, ?_, hdb.consistent.complete⟩, hdb.recorded, trivial, ?_, ?_, ?_⟩
  · rintro _ ⟨⟩
    exact hcompute
  · intro tx htx
    exact ⟨(hdb.service tx htx).1, (hdb.service tx htx).2.congr_row rfl⟩
  · intro tx htx hrow
    exact absurd (hdb.exclusive tx htx hrow).1 hheld
  · intro _
    rfl

theorem Agreed.stepOther (hdb : Agreed setup db) {statement : Statement}
    (h : Database.stepOther setup db statement = some db') : Agreed setup db' := by
  cases statement with
  | begin =>
      simp only [Database.stepOther] at h
      split at h
      case isFalse => cases h
      case isTrue =>
        cases h
        exact hdb.withService hdb.recorded (fun _ => rfl) (by simp)
  | lockRow =>
      simp only [Database.stepOther] at h
      split at h
      case isFalse => cases h
      case isTrue hfree =>
        cases h
        obtain ⟨-, hclearing, hservice⟩ := Database.idle_of_rowFree hfree
        refine ⟨hdb.consistent, hdb.recorded, rfl, hdb.service, ?_, ?_⟩
        · intro tx htx hrow
          rw [hservice tx htx] at hrow
          cases hrow
        · intro hcleared
          rw [hclearing] at hcleared
          cases hcleared
  | readEvaluations =>
      simp only [Database.stepOther] at h
      split at h
      case h_2 => cases h
      case h_1 row hscoring =>
        split at h
        case isFalse => cases h
        case isTrue hneeds =>
          cases h
          have hlocked := hdb.scoring
          rw [hscoring] at hlocked
          obtain rfl : row = db.row := hlocked
          exact hdb.withScoring (by rw [hscoring]; exact Scoring.noConfusion)
            ⟨rfl, hneeds, fun _ => rfl⟩
  | writeScores =>
      simp only [Database.stepOther] at h
      split at h
      case h_2 => cases h
      case h_1 row evaluations hscoring =>
        split at h
        case h_2 => cases h
        case h_1 scores hcompute =>
          cases h
          have hloaded := hdb.scoring
          rw [hscoring] at hloaded
          obtain ⟨rfl, hneeds, hsame⟩ := hloaded
          rw [ScoringSetup.computeScore_congr hsame] at hcompute
          exact hdb.withScoring (by rw [hscoring]; exact Scoring.noConfusion) ⟨hneeds, hcompute⟩
  | commitScores =>
      simp only [Database.stepOther] at h
      split at h
      case h_2 => cases h
      case h_1 scores hscoring =>
        cases h
        exact hdb.commitScores hscoring
  | abandonScoring =>
      cases h
      exact ⟨hdb.consistent, hdb.recorded, trivial, hdb.service,
        fun tx htx hrow => ⟨rfl, (hdb.exclusive tx htx hrow).2⟩, fun _ => rfl⟩
  | clearScores =>
      simp only [Database.stepOther] at h
      split at h
      case isFalse => cases h
      case isTrue hfree =>
        cases h
        obtain ⟨hidle, -, hservice⟩ := Database.idle_of_rowFree hfree
        refine ⟨hdb.consistent, hdb.recorded, hdb.scoring, hdb.service, ?_, fun _ => hidle⟩
        intro tx htx hrow
        rw [hservice tx htx] at hrow
        cases hrow
  | commitClearing =>
      simp only [Database.stepOther] at h
      split at h
      case isFalse => cases h
      case isTrue hclearing =>
        cases h
        have hidle := hdb.clearing hclearing
        refine ⟨hdb.consistent.invalidateScore, hdb.recorded, ?_, ?_, ?_, fun _ => hidle⟩
        · simp only [hidle, ScoringAgrees]
        · intro tx htx
          exact ⟨(hdb.service tx htx).1, (hdb.service tx htx).2.congr_row rfl⟩
        · intro tx htx hrow
          exact ⟨hidle, rfl⟩
  | rollbackClearing =>
      cases h
      exact ⟨hdb.consistent, hdb.recorded, hdb.scoring, hdb.service,
        fun tx htx hrow => ⟨(hdb.exclusive tx htx hrow).1, rfl⟩, by simp⟩
  | _ => cases h

theorem Agreed.step (hdb : Agreed setup db) {statement : Statement}
    (hok : LeavesFailures db statement)
    (h : (databaseMachine setup).step db statement = some db') : Agreed setup db' := by
  rcases Option.or_eq_some_iff.1 h with hother | ⟨-, hservice⟩
  · exact hdb.stepOther hother
  · rw [Option.bind_eq_some_iff] at hservice
    obtain ⟨tx, htx, hstep⟩ := hservice
    exact hdb.stepService htx hok hstep

end Statements

/-- In every run that never sets the evaluation outcome of a result scored for its
failed compilation, every committed score is the one of the committed evaluations. -/
theorem stored_scores_fit {setup : ScoringSetup} {db : Database}
    (h : (databaseMachine setup).ReachableVia LeavesFailures db) {scores : Scores}
    (hscores : db.row.scores = some scores) :
    (db.row.compilationFailed ∨ db.row.evaluated) ∧
      setup.computeScore db.row.evaluated db.evaluations = .ok scores := by
  have hagreed : Agreed setup db := by
    refine h.invariant ?_ fun _ _ _ hdb hok hstep => hdb.step hok hstep
    rintro _ rfl
    exact .init
  constructor
  · apply hagreed.consistent.graded
    rw [ResultRow.scored, hscores, Option.isSome_some]
  · exact hagreed.consistent.fits scores hscores

/-- One subtask of one testcase. -/
def smallSetup : ScoringSetup where
  compile := fun _ => .error .typeError
  scoreType := .group ((ScoreTypeGroup.create (fun _ => .error .typeError) .groupMin
    (.list [.list [.int 100, .int 1]]) [("001", true)] 2).toOption.get (by decide +kernel))
  codenames := ["001"]
  distinct := by decide
  timeLimit := some 1
  scorePrecision := 2

def smallStart : Database :=
  ⟨⟨none, false, none⟩, [], .idle, false, none⟩

/-- EvaluationService writes the result of a compilation. -/
def writeCompilation (success : Bool) : List Statement :=
  [.begin, .blankRow (.compiled success), .finishFlush, .commit]

/-- EvaluationService writes the evaluation of the testcase, with full outcome, and
starts the transaction that sets the evaluation outcome. -/
def writeEvaluation : List Statement :=
  [.begin, .insertEvaluation ⟨"001", 1, [], some (1 / 2), some 1000⟩, .commit, .begin]

def score : List Statement :=
  [.lockRow, .readEvaluations, .writeScores, .commitScores]

/-- A compiled submission with its evaluation, whose outcome is about to be set. -/
def evaluatedSmall : Database :=
  ((databaseMachine smallSetup).exec smallStart (writeCompilation true ++ writeEvaluation)).get
    (by decide +kernel)

def outcomeSetSmall : Database :=
  ((databaseMachine smallSetup).step evaluatedSmall .setEvaluationOutcome).get
    (by decide +kernel)

def scoredSmall : Database :=
  ((databaseMachine smallSetup).exec outcomeSetSmall (.commit :: score)).get (by decide +kernel)

def fullScores : Scores :=
  scoredSmall.row.scores.get (by decide +kernel)

theorem stored_scores_fit_small :
    (scoredSmall.row.compilationFailed ∨ scoredSmall.row.evaluated) ∧
      smallSetup.computeScore scoredSmall.row.evaluated scoredSmall.evaluations =
        .ok fullScores := by
  have hbefore : (databaseMachine smallSetup).Path LeavesFailures smallStart evaluatedSmall := by
    refine Machine.path_of_exec (fun statement hstatement db => ?_) (Option.some_get _).symm
    fin_cases hstatement <;> trivial
  have hset : (databaseMachine smallSetup).Path LeavesFailures smallStart outcomeSetSmall :=
    hbefore.step (by unfold LeavesFailures; decide +kernel) (Option.some_get _).symm
  have hafter : (databaseMachine smallSetup).Path LeavesFailures outcomeSetSmall scoredSmall := by
    refine Machine.path_of_exec (fun statement hstatement db => ?_) (Option.some_get _).symm
    fin_cases hstatement <;> trivial
  exact stored_scores_fit ⟨smallStart, rfl, hset.trans hafter⟩ (Option.some_get _).symm

/-- The compilation succeeds, is repeated and fails, and the result is scored.  Then the
evaluation that the first compilation asked for arrives. -/
def lateEvaluation : List Statement :=
  writeCompilation true ++ writeCompilation false ++ score ++ writeEvaluation ++
    [.setEvaluationOutcome, .commit]

def lateEvaluated : Database :=
  ((databaseMachine smallSetup).exec smallStart lateEvaluation).get (by decide +kernel)

/-- The stored score stays the one of the failed compilation. -/
theorem stored_score_of_late_evaluation :
    ¬∀ db scores, (databaseMachine smallSetup).Reachable db → db.row.scores = some scores →
      (db.row.compilationFailed ∨ db.row.evaluated) ∧
        smallSetup.computeScore db.row.evaluated db.evaluations = .ok scores := by
  intro h
  have hrun : (databaseMachine smallSetup).exec smallStart lateEvaluation = some lateEvaluated :=
    (Option.some_get _).symm
  have hreach := Machine.reachable_of_exec rfl hrun
  have hscores : lateEvaluated.row.scores = some (.group ⟨0, [], 0, [], ["0"]⟩) := by
    decide +kernel
  have hcomputed : smallSetup.computeScore lateEvaluated.row.evaluated lateEvaluated.evaluations =
      .ok fullScores :=
    eq_ok_of_toOption (by decide +kernel)
  have hfits := (h _ _ hreach hscores).2
  rw [hcomputed] at hfits
  exact absurd (Except.ok.inj hfits) (by decide +kernel)

end Service
end ContestManagement
