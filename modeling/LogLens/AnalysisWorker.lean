import LogLens.Ingestion
import LogLens.Jobs
import Mathlib.Data.Int.ConditionallyCompleteOrder
import Mathlib.Data.List.MinMax
import Mathlib.Data.Prod.Lex
import Mathlib.Data.Rat.Floor

/-! `run_error_group_analysis_task`, with the table `error_analyses`. A step is one
commit; the reads before the call of the provider are a step of their own, as other
executions may commit until it answers. `row` is the committed row of the job; the
execution holds the copies its session read last. A statement may raise, with a text
that is an argument. -/

namespace LogLens

structure AnalysisTables where
  analyses : List ErrorAnalysis := []
  nextAnalysisId : Nat := 1
  deriving DecidableEq

/-- Where an execution of the task stands. -/
inductive AnalysisExec
  | started
  /-- past the skip check, `mark_running` not committed -/
  | loaded (job : BackgroundJob)
  /-- RUNNING and a pending analysis are committed -/
  | prepared (job : BackgroundJob) (created : ErrorAnalysis)
  /-- the latest analysis of the group is loaded, and the provider is called -/
  | analyzing (job : BackgroundJob) (latest : ErrorAnalysis) (logCount : Nat)
  /-- the `status` of the returned dict, if it has one -/
  | returned (status : Option BackgroundJobStatus)
  | raised (error : Raised)
  deriving DecidableEq

inductive AnalysisEvent
  | load
  /-- `startError` is raised before the INSERT, `endError` by it or later -/
  | prepare (now : Timestamp) (celeryTaskId : Option Str) (startError endError : Option Str)
  /-- the logs and the latest analysis are read -/
  | select (error : Option Str)
  /-- `flushError` is raised by a flush of the outcome -/
  | finish (analyzedAt completedAt : Timestamp) (answer : Except Str AIAnalysisResult)
      (flushError commitError : Option Str)
  deriving DecidableEq

structure AnalysisOutcome where
  exec : AnalysisExec
  row : BackgroundJob
  tables : AnalysisTables

def analysisLoad (row : BackgroundJob) : AnalysisExec :=
  if skipsExecution row.status then .returned (some row.status) else .loaded row

def pendingAnalysis (now : Timestamp) (groupId createdBy id : Nat) : ErrorAnalysis where
  id := id
  errorGroupId := groupId
  status := .pending
  createdBy := createdBy
  createdAt := now

def createPendingAnalysis (now : Timestamp) (groupId createdBy : Nat) (t : AnalysisTables) :
    ErrorAnalysis × AnalysisTables :=
  (pendingAnalysis now groupId createdBy t.nextAnalysisId,
    { analyses := t.analyses ++ [pendingAnalysis now groupId createdBy t.nextAnalysisId]
      nextAnalysisId := t.nextAnalysisId + 1 })

/-- ORDER BY created_at DESC, id DESC -/
def ErrorAnalysis.newer (a b : ErrorAnalysis) : Bool :=
  b.createdAt < a.createdAt || (b.createdAt = a.createdAt && b.id < a.id)

def getLatestForGroup (groupId : Nat) (analyses : List ErrorAnalysis) : Option ErrorAnalysis :=
  (analyses.filter fun a => a.errorGroupId = groupId).foldl
    (fun latest a => if latest.all a.newer then some a else latest) none

def AnalysisTables.edit (id : Nat) (change : ErrorAnalysis → ErrorAnalysis) (t : AnalysisTables) :
    AnalysisTables :=
  { t with analyses := t.analyses.map fun a => if a.id = id then change a else a }

/-- A `Numeric(4, 3)` column rounds to thousandths, halves up. -/
def numeric3 (x : ℚ) : ℚ := ⌊x * 1000 + 1 / 2⌋ / 1000

/-- What the columns of `error_analyses` take. -/
def AIAnalysisResult.storable (result : AIAnalysisResult) : Bool :=
  FitsBits 31 result.latencyMs &&
    [result.summary, result.likelyRootCause, result.suggestedFix, result.affectedComponent,
      result.reasoningSummary, result.provider, result.model].all fun text => NulFree text

/-- The assignments to `latest` once the provider has answered. -/
def completeAnalysis (now : Timestamp) (result : AIAnalysisResult) (logCount : Nat)
    (latest : ErrorAnalysis) : ErrorAnalysis :=
  { latest with
    status := .completed
    summary := some result.summary
    likelyRootCause := some result.likelyRootCause
    suggestedFix := some result.suggestedFix
    confidence := some (numeric3 result.confidence)
    affectedComponent := some result.affectedComponent
    recommendedPriority := some result.recommendedPriority
    reasoningSummary := some result.reasoningSummary
    provider := some result.provider
    model := some result.model
    latencyMs := some result.latencyMs
    rawResponseMetadata := some (result.generatedAt, logCount)
    completedAt := some now }

def failAnalysis (latest : ErrorAnalysis) : ErrorAnalysis := { latest with status := .failed }

/-- The row after a flush: `loaded` is the copy as last read, `new` as assigned. -/
def flushAnalysis (loaded new row : ErrorAnalysis) : ErrorAnalysis :=
  { row with
    status := flushColumn loaded.status new.status row.status
    summary := flushColumn loaded.summary new.summary row.summary
    likelyRootCause := flushColumn loaded.likelyRootCause new.likelyRootCause row.likelyRootCause
    suggestedFix := flushColumn loaded.suggestedFix new.suggestedFix row.suggestedFix
    confidence := flushColumn loaded.confidence new.confidence row.confidence
    affectedComponent :=
      flushColumn loaded.affectedComponent new.affectedComponent row.affectedComponent
    recommendedPriority :=
      flushColumn loaded.recommendedPriority new.recommendedPriority row.recommendedPriority
    reasoningSummary :=
      flushColumn loaded.reasoningSummary new.reasoningSummary row.reasoningSummary
    provider := flushColumn loaded.provider new.provider row.provider
    model := flushColumn loaded.model new.model row.model
    latencyMs := flushColumn loaded.latencyMs new.latencyMs row.latencyMs
    rawResponseMetadata :=
      flushColumn loaded.rawResponseMetadata new.rawResponseMetadata row.rawResponseMetadata
    completedAt := flushColumn loaded.completedAt new.completedAt row.completedAt }

section Latest
variable {groupId : Nat} {analyses : List ErrorAnalysis} {latest a : ErrorAnalysis}

def ErrorAnalysis.sortKey (a : ErrorAnalysis) : Timestamp ×ₗ Nat := toLex (a.createdAt, a.id)

theorem newer_iff (a b : ErrorAnalysis) : a.newer b = true ↔ b.sortKey < a.sortKey := by
  simp [ErrorAnalysis.newer, ErrorAnalysis.sortKey, Prod.Lex.toLex_lt_toLex]

theorem getLatestForGroup_eq (groupId : Nat) (analyses : List ErrorAnalysis) :
    getLatestForGroup groupId analyses =
      (analyses.filter fun a => a.errorGroupId = groupId).argmax ErrorAnalysis.sortKey := by
  unfold getLatestForGroup List.argmax
  congr 1
  funext latest a
  cases latest with
  | none => rfl
  | some b =>
    simp only [Option.all_some, newer_iff]
    rfl

theorem getLatestForGroup_some (found : getLatestForGroup groupId analyses = some latest) :
    latest ∈ analyses ∧ latest.errorGroupId = groupId ∧
      ∀ a ∈ analyses, a.errorGroupId = groupId → a.sortKey ≤ latest.sortKey := by
  rw [getLatestForGroup_eq] at found
  have chosen := List.argmax_mem found
  rw [List.mem_filter, decide_eq_true_eq] at chosen
  refine ⟨chosen.1, chosen.2, fun a ha own => List.le_of_mem_argmax ?_ found⟩
  simpa using ⟨ha, own⟩

/-- The newest analysis of a group is found. -/
theorem getLatestForGroup_newest (ha : a ∈ analyses) (own : a.errorGroupId = groupId)
    (newest : ∀ b ∈ analyses, b.errorGroupId = groupId → b = a ∨ b.sortKey < a.sortKey) :
    getLatestForGroup groupId analyses = some a := by
  cases found : getLatestForGroup groupId analyses with
  | none =>
    have empty : analyses.filter (fun a => a.errorGroupId = groupId) = [] := by
      rwa [getLatestForGroup_eq, List.argmax_eq_none] at found
    have here : a ∈ analyses.filter fun a => a.errorGroupId = groupId := by simpa using ⟨ha, own⟩
    rw [empty] at here
    cases here
  | some latest =>
    obtain ⟨hl, group, bound⟩ := getLatestForGroup_some found
    cases newest latest hl group with
    | inl same => rw [same]
    | inr older => exact absurd (bound a ha own) (not_le_of_gt older)

end Latest

section Step
variable (row : BackgroundJob) (logs : LogTables) (t : AnalysisTables)

/-- The transaction is rolled back and the exception leaves the task. -/
def raiseTask (error : Raised) : AnalysisOutcome := ⟨.raised error, row, t⟩

/-- From `mark_running` to the first commit; `others` are the other committed jobs. -/
def prepareAnalysis (job : BackgroundJob) (now : Timestamp) (celeryTaskId : Option Str)
    (startError endError : Option Str) (others : List BackgroundJob) : AnalysisOutcome :=
  let running := flushJob job (markRunning now celeryTaskId job) row
  match startError with
  | some text => raiseTask row t (.other text)
  | none =>
    if others.any running.conflicts then raiseTask row t integrityError
    else
      match running.payload.groupId, running.payload.requestedBy with
      | some groupId, some createdBy =>
        if logs.errorGroups.any fun g => g.id = groupId then
          let created := createPendingAnalysis now groupId createdBy t
          match endError with
          | some text =>
            raiseTask row { t with nextAnalysisId := created.2.nextAnalysisId } (.other text)
          | none => ⟨.prepared running created.1, running, created.2⟩
        else
          match endError with
          | some text => raiseTask row t (.other text)
          | none =>
            ⟨.returned (some .failed), markFailed now "Error group not found".toList running, t⟩
      | _, _ => raiseTask row t (.other "KeyError".toList)

/-- From the first commit to the call of the provider. A row that the session holds already
is not read again. -/
def selectLatest (job : BackgroundJob) (created : ErrorAnalysis) (error : Option Str) :
    AnalysisOutcome :=
  let logCount :=
    min 10 (logs.logs.filter fun log => log.errorGroupId = some created.errorGroupId).length
  match error with
  | some text => raiseTask row t (.other text)
  | none =>
    match getLatestForGroup created.errorGroupId t.analyses with
    | some latest =>
      ⟨.analyzing job (if latest.id = created.id then created else latest) logCount, row, t⟩
    | none => raiseTask row t (.other "AssertionError".toList)

/-- From the answer of the provider to the second commit. A flush that fails leaves the session
unusable, so the handler's own flush raises. -/
def recordAnalysis (job : BackgroundJob) (latest : ErrorAnalysis) (logCount : Nat)
    (analyzedAt completedAt : Timestamp) (answer : Except Str AIAnalysisResult)
    (flushError commitError : Option Str) : AnalysisOutcome :=
  let progress (successCount failureCount : Nat) :=
    flushJob job (updateProgress 1 successCount failureCount none none job) row
  match flushError.or commitError with
  | some text => raiseTask row t (.other text)
  | none =>
    match answer with
    | .ok result =>
      if result.storable then
        ⟨.returned none, markCompleted completedAt .completed none (progress 1 0),
          t.edit latest.id (flushAnalysis latest
            (completeAnalysis analyzedAt result logCount latest))⟩
      else raiseTask row t (.other "PendingRollbackError".toList)
    | .error _ =>
      ⟨.returned none,
        markCompleted completedAt .failed (some "Analysis failed".toList) (progress 0 1),
        t.edit latest.id (flushAnalysis latest (failAnalysis latest))⟩

/-- `mark_running` waits for an uncommitted job that its index keeps the row apart from. -/
def analysisStep (exec : AnalysisExec) (event : AnalysisEvent)
    (others uncommitted : List BackgroundJob) : Option AnalysisOutcome :=
  match exec, event with
  | .started, .load => some ⟨analysisLoad row, row, t⟩
  | .loaded job, .prepare now celeryTaskId startError endError =>
    if uncommitted.any (flushJob job (markRunning now celeryTaskId job) row).conflicts then none
    else some (prepareAnalysis row logs t job now celeryTaskId startError endError others)
  | .prepared job created, .select error => some (selectLatest row logs t job created error)
  | .analyzing job latest logCount,
    .finish analyzedAt completedAt answer flushError commitError =>
    some (recordAnalysis row t job latest logCount analyzedAt completedAt answer flushError
      commitError)
  | _, _ => none

/-- What a step of an execution does. -/
inductive AnalysisEffect (rivals : List BackgroundJob) :
    AnalysisExec → AnalysisEvent → AnalysisOutcome → Prop
  | loads : skipsExecution row.status = false →
    AnalysisEffect rivals .started .load ⟨.loaded row, row, t⟩
  | skips : skipsExecution row.status = true →
    AnalysisEffect rivals .started .load ⟨.returned (some row.status), row, t⟩
  | breaks {exec : AnalysisExec} {event : AnalysisEvent} {error : Raised} {t' : AnalysisTables} :
    t'.analyses = t.analyses → t.nextAnalysisId ≤ t'.nextAnalysisId →
    AnalysisEffect rivals exec event ⟨.raised error, row, t'⟩
  | prepares {job : BackgroundJob} {now : Timestamp} {celeryTaskId : Option Str}
    {groupId createdBy : Nat} : row.payload.groupId = some groupId →
    row.payload.requestedBy = some createdBy →
    (logs.errorGroups.any fun g => g.id = groupId) = true →
    (∀ other ∈ rivals,
      (flushJob job (markRunning now celeryTaskId job) row).conflicts other = false) →
    AnalysisEffect rivals (.loaded job) (.prepare now celeryTaskId none none)
      ⟨.prepared (flushJob job (markRunning now celeryTaskId job) row)
          (pendingAnalysis now groupId createdBy t.nextAnalysisId),
        flushJob job (markRunning now celeryTaskId job) row,
        (createPendingAnalysis now groupId createdBy t).2⟩
  | misses {job : BackgroundJob} {now : Timestamp} {celeryTaskId : Option Str} {groupId : Nat} :
    row.payload.groupId = some groupId →
    (logs.errorGroups.any fun g => g.id = groupId) = false →
    AnalysisEffect rivals (.loaded job) (.prepare now celeryTaskId none none)
      ⟨.returned (some .failed), markFailed now "Error group not found".toList
        (flushJob job (markRunning now celeryTaskId job) row), t⟩
  | selects {job : BackgroundJob} {created latest : ErrorAnalysis} (logCount : Nat) :
    getLatestForGroup created.errorGroupId t.analyses = some latest →
    AnalysisEffect rivals (.prepared job created) (.select none)
      ⟨.analyzing job (if latest.id = created.id then created else latest) logCount, row, t⟩
  | completes {job : BackgroundJob} {latest : ErrorAnalysis} {logCount : Nat}
    {analyzedAt completedAt : Timestamp} {result : AIAnalysisResult} : result.storable = true →
    AnalysisEffect rivals (.analyzing job latest logCount)
      (.finish analyzedAt completedAt (.ok result) none none)
      ⟨.returned none, markCompleted completedAt .completed none
          (flushJob job (updateProgress 1 1 0 none none job) row),
        t.edit latest.id (flushAnalysis latest
          (completeAnalysis analyzedAt result logCount latest))⟩
  | fails {job : BackgroundJob} {latest : ErrorAnalysis} {logCount : Nat}
    {analyzedAt completedAt : Timestamp} {text : Str} :
    AnalysisEffect rivals (.analyzing job latest logCount)
      (.finish analyzedAt completedAt (.error text) none none)
      ⟨.returned none, markCompleted completedAt .failed (some "Analysis failed".toList)
          (flushJob job (updateProgress 1 0 1 none none job) row),
        t.edit latest.id (flushAnalysis latest (failAnalysis latest))⟩

theorem prepareAnalysis_effect (job : BackgroundJob) (now : Timestamp) (celeryTaskId : Option Str)
    (startError endError : Option Str) (others : List BackgroundJob)
    {uncommitted : List BackgroundJob}
    (free : uncommitted.any (flushJob job (markRunning now celeryTaskId job) row).conflicts =
      false) :
    AnalysisEffect row logs t (others ++ uncommitted) (.loaded job)
      (.prepare now celeryTaskId startError endError)
      (prepareAnalysis row logs t job now celeryTaskId startError endError others) := by
  have payload : (flushJob job (markRunning now celeryTaskId job) row).payload = row.payload :=
    flushColumn_unchanged _ _
  unfold prepareAnalysis raiseTask
  simp only [payload]
  cases startError with
  | some text => exact .breaks rfl (le_refl _)
  | none =>
    simp only
    split
    · exact .breaks rfl (le_refl _)
    · rename_i alone
      split
      · rename_i groupId createdBy group user
        split
        · rename_i known
          cases endError with
          | some text => exact .breaks rfl (Nat.le_succ _)
          | none =>
            refine .prepares group user known fun rival hr => Bool.eq_false_iff.mpr fun clash => ?_
            cases List.mem_append.mp hr with
            | inl committed => exact alone (List.any_eq_true.mpr ⟨rival, committed, clash⟩)
            | inr waiting =>
              rw [List.any_eq_true.mpr ⟨rival, waiting, clash⟩] at free
              cases free
        · rename_i unknown
          cases endError with
          | some text => exact .breaks rfl (le_refl _)
          | none => exact .misses group (by simpa using unknown)
      · exact .breaks rfl (le_refl _)

theorem selectLatest_effect (job : BackgroundJob) (created : ErrorAnalysis) (error : Option Str)
    (rivals : List BackgroundJob) :
    AnalysisEffect row logs t rivals (.prepared job created) (.select error)
      (selectLatest row logs t job created error) := by
  unfold selectLatest raiseTask
  cases error with
  | some text => exact .breaks rfl (le_refl _)
  | none =>
    simp only
    split
    · rename_i latest newest
      exact .selects _ newest
    · exact .breaks rfl (le_refl _)

theorem recordAnalysis_effect (job : BackgroundJob) (latest : ErrorAnalysis) (logCount : Nat)
    (analyzedAt completedAt : Timestamp) (answer : Except Str AIAnalysisResult)
    (flushError commitError : Option Str) (rivals : List BackgroundJob) :
    AnalysisEffect row logs t rivals (.analyzing job latest logCount)
      (.finish analyzedAt completedAt answer flushError commitError)
      (recordAnalysis row t job latest logCount analyzedAt completedAt answer flushError
        commitError) := by
  unfold recordAnalysis raiseTask
  cases flushError with
  | some text => exact .breaks rfl (le_refl _)
  | none =>
    cases commitError with
    | some text => exact .breaks rfl (le_refl _)
    | none =>
      cases answer with
      | ok result =>
        simp only [Option.or_none]
        split
        · rename_i storable
          exact .completes storable
        · exact .breaks rfl (le_refl _)
      | error text => exact .fails

theorem analysisStep_effect {exec : AnalysisExec} {event : AnalysisEvent}
    {others uncommitted : List BackgroundJob} {outcome : AnalysisOutcome}
    (moved : analysisStep row logs t exec event others uncommitted = some outcome) :
    AnalysisEffect row logs t (others ++ uncommitted) exec event outcome := by
  cases exec with
  | started =>
    cases event with
    | load =>
      simp only [analysisStep, analysisLoad, Option.some.injEq] at moved
      subst moved
      cases skips : skipsExecution row.status with
      | true => exact .skips skips
      | false => exact .loads skips
    | prepare | select | finish => cases moved
  | loaded job =>
    cases event with
    | prepare now celeryTaskId startError endError =>
      simp only [analysisStep] at moved
      split at moved
      · cases moved
      · rename_i free
        rw [Option.some.injEq] at moved
        exact moved ▸ prepareAnalysis_effect row logs t job now celeryTaskId startError endError
          others (Bool.eq_false_iff.mpr free)
    | load | select | finish => cases moved
  | prepared job created =>
    cases event with
    | select error =>
      simp only [analysisStep, Option.some.injEq] at moved
      exact moved ▸ selectLatest_effect row logs t job created error _
    | load | prepare | finish => cases moved
  | analyzing job latest logCount =>
    cases event with
    | finish analyzedAt completedAt answer flushError commitError =>
      simp only [analysisStep, Option.some.injEq] at moved
      exact moved ▸ recordAnalysis_effect row logs t job latest logCount analyzedAt completedAt
        answer flushError commitError _
    | load | prepare | select => cases moved
  | returned | raised => cases event <;> cases moved

end Step

section Tables
variable {t : AnalysisTables}

/-- The ids of the analyses are distinct and below the sequence. -/
structure AnalysisTables.Valid (t : AnalysisTables) : Prop where
  ids : (t.analyses.map ErrorAnalysis.id).Nodup
  fresh : ∀ a ∈ t.analyses, a.id < t.nextAnalysisId

theorem AnalysisTables.Valid.eq_of_id (valid : t.Valid) {a b : ErrorAnalysis}
    (ha : a ∈ t.analyses) (hb : b ∈ t.analyses) (same : a.id = b.id) : a = b :=
  List.inj_on_of_nodup_map valid.ids ha hb same

theorem mem_edit {id : Nat} {change : ErrorAnalysis → ErrorAnalysis}
    {b : ErrorAnalysis} : b ∈ (t.edit id change).analyses ↔
      (∃ a ∈ t.analyses, a.id = id ∧ change a = b) ∨ (b ∈ t.analyses ∧ b.id ≠ id) := by
  simp only [AnalysisTables.edit, List.mem_map]
  constructor
  · rintro ⟨a, ha, rfl⟩
    split
    · rename_i own
      exact .inl ⟨a, ha, own, rfl⟩
    · rename_i other
      exact .inr ⟨ha, other⟩
  · rintro (⟨a, ha, own, rfl⟩ | ⟨hb, other⟩)
    · exact ⟨a, ha, if_pos own⟩
    · exact ⟨b, hb, if_neg other⟩

theorem AnalysisTables.Valid.edit (valid : t.Valid) (latest new : ErrorAnalysis) :
    (t.edit latest.id (flushAnalysis latest new)).Valid := by
  constructor
  · have ids : (t.edit latest.id (flushAnalysis latest new)).analyses.map ErrorAnalysis.id =
        t.analyses.map ErrorAnalysis.id := by
      rw [AnalysisTables.edit, List.map_map]
      refine List.map_congr_left fun a _ => ?_
      simp only [Function.comp_apply]
      split <;> rfl
    rw [ids]
    exact valid.ids
  · intro a ha
    cases mem_edit.mp ha with
    | inl changed =>
      obtain ⟨old, ho, -, rfl⟩ := changed
      exact valid.fresh old ho
    | inr kept => exact valid.fresh a kept.1

/-- A new analysis is newer than the ones that are not dated later. -/
theorem sortKey_pendingAnalysis {a : ErrorAnalysis} {now : Timestamp} {id : Nat}
    (dated : a.createdAt ≤ now) (older : a.id < id) (groupId createdBy : Nat) :
    a.sortKey < (pendingAnalysis now groupId createdBy id).sortKey := by
  rw [ErrorAnalysis.sortKey, ErrorAnalysis.sortKey, Prod.Lex.toLex_lt_toLex]
  cases lt_or_eq_of_le dated with
  | inl earlier => exact .inl earlier
  | inr same => exact .inr ⟨same, older⟩

theorem AnalysisTables.Valid.create (valid : t.Valid) (now : Timestamp) (groupId createdBy : Nat) :
    (createPendingAnalysis now groupId createdBy t).2.Valid := by
  simp only [createPendingAnalysis]
  constructor
  · simp only [List.map_append, List.map_singleton, pendingAnalysis]
    refine List.nodup_append.mpr ⟨valid.ids, List.nodup_singleton _, fun id hi last hl => ?_⟩
    obtain ⟨a, ha, rfl⟩ := List.mem_map.mp hi
    rw [List.mem_singleton.mp hl]
    exact (valid.fresh a ha).ne
  · intro a ha
    cases List.mem_append.mp ha with
    | inl old => exact (valid.fresh a old).trans (Nat.lt_succ_self _)
    | inr new =>
      rw [List.mem_singleton.mp new]
      exact Nat.lt_succ_self _

theorem AnalysisEffect.valid {row : BackgroundJob} {logs : LogTables}
    {rivals : List BackgroundJob} {exec : AnalysisExec} {event : AnalysisEvent}
    {outcome : AnalysisOutcome} (effect : AnalysisEffect row logs t rivals exec event outcome)
    (valid : t.Valid) : outcome.tables.Valid := by
  cases effect with
  | loads | skips | misses | selects => exact valid
  | breaks same more =>
    constructor <;> rw [same]
    · exact valid.ids
    · exact fun a ha => (valid.fresh a ha).trans_le more
  | prepares => exact valid.create _ _ _
  | completes | fails => exact valid.edit _ _

end Tables

end LogLens
