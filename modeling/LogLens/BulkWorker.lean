import LogLens.Ingestion
import LogLens.Jobs

/-! `process_bulk_ingestion_job_task`, one commit a step. `row` is the committed
row of the job; the execution holds the copy its session read last. -/

namespace LogLens

/-- Where an execution of the task stands. -/
inductive BulkExec
  | started
  /-- past the skip check, `mark_running` not committed -/
  | loaded (job : BackgroundJob)
  /-- in the loop, before the item at `index` or after the last one -/
  | items (job : BackgroundJob) (logs : List LogIngestRequest) (index successCount : Nat)
      (failures : List BulkLogItemFailure)
  | returned (status : BackgroundJobStatus)
  | raised (error : Raised)
  deriving DecidableEq

/-- The execution can still write. -/
def BulkExec.live : BulkExec → Bool
  | .started | .returned _ | .raised _ => false
  | .loaded _ | .items .. => true

inductive BulkEvent
  | load
  | markRunning (now : Timestamp) (celeryTaskId : Option Str) (commitError : Option Str)
  | item (now : Timestamp) (fault : PersistFault) (commitError : Option Str)
  | complete (now : Timestamp) (commitError : Option Str)
  deriving DecidableEq

/-- How the commit of a step fails. -/
def BulkEvent.commitError : BulkEvent → Option Str
  | .load => none
  | .markRunning _ _ commitError | .item _ _ commitError | .complete _ commitError => commitError

structure BulkOutcome where
  exec : BulkExec
  row : BackgroundJob
  tables : LogTables
  /-- the index and the log of an item committed by the step -/
  persisted : Option (Nat × Log) := none

def bulkLoad (row : BackgroundJob) : BulkExec :=
  if skipsExecution row.status then .returned row.status else .loaded row

/-- `BulkLogIngestRequest.model_validate(job.payload)` and the empty counters. -/
def enterLoop (job : BackgroundJob) : BulkExec :=
  match job.payload.logs with
  | some (item :: rest) => .items job (item :: rest) 0 0 []
  | _ => .raised (.other "validation error for BulkLogIngestRequest".toList)

theorem enterLoop_logs (job : BackgroundJob) {logs : List LogIngestRequest}
    (payload : job.payload.logs = some logs) (nonempty : logs ≠ []) :
    enterLoop job = .items job logs 0 0 [] := by
  unfold enterLoop
  rw [payload]
  cases logs with
  | nil => exact absurd rfl nonempty
  | cons item rest => rfl

def itemFailure (index : Nat) (error : Raised) : BulkLogItemFailure :=
  ⟨index, error.text.take 200⟩

/-- `job` after `update_progress` for the item at `index`. -/
def itemProgress (index successCount : Nat) (failures : List BulkLogItemFailure)
    (job : BackgroundJob) : BackgroundJob :=
  updateProgress (index + 1) successCount failures.length
    (some { job.payload with failures := some failures }) none job

/-- `final_status`, with FAILED turned into PARTIALLY_COMPLETED when there are logs. -/
def bulkFinalStatus (logs : List LogIngestRequest) (successCount failureCount : Nat) :
    BackgroundJobStatus :=
  if finalStatus successCount failureCount = .failed then
    if logs.isEmpty then .failed else .partiallyCompleted
  else finalStatus successCount failureCount

def failureSummary (failures : List BulkLogItemFailure) : Option Str :=
  if failures.isEmpty then none
  else some (strOfId failures.length ++ " items failed".toList)

theorem skipsExecution_status {row : BackgroundJob} (active : skipsExecution row.status = false)
    (valid : row.status ≠ .failed) : row.status.active = true := by
  cases status : row.status <;> simp_all [skipsExecution, BackgroundJobStatus.active]

theorem bulkFinalStatus_skips {logs : List LogIngestRequest} (nonempty : logs ≠ [])
    (successCount failureCount : Nat) :
    skipsExecution (bulkFinalStatus logs successCount failureCount) = true := by
  have some : logs.isEmpty = false := by simpa using nonempty
  unfold bulkFinalStatus finalStatus skipsExecution
  rw [some]
  split <;> split <;> simp_all

section Step
variable [Platform]

/-- The loop body for one item, up to its commit. -/
def bulkItem (job : BackgroundJob) (logs : List LogIngestRequest) (index successCount : Nat)
    (failures : List BulkLogItemFailure) (now : Timestamp) (fault : PersistFault)
    (commitError : Option Str) (item : LogIngestRequest) (row : BackgroundJob)
    (tables : LogTables) : BulkOutcome :=
  let persisted := persistInSavepoint now fault item tables
  match commitError with
  | some text =>
    { exec := .raised (.other text), row := row, tables := tables.rollbackTo persisted.2 }
  | none =>
    match persisted with
    | (.ok log, tables) =>
      let written := flushJob job (itemProgress index (successCount + 1) failures job) row
      { exec := .items written logs (index + 1) (successCount + 1) failures
        row := written
        tables := tables
        persisted := some (index, log) }
    | (.error error, tables) =>
      let failures := failures ++ [itemFailure index error]
      let written := flushJob job (itemProgress index successCount failures job) row
      { exec := .items written logs (index + 1) successCount failures
        row := written
        tables := tables }

def bulkStep (exec : BulkExec) (event : BulkEvent) (row : BackgroundJob) (tables : LogTables) :
    Option BulkOutcome :=
  match exec, event with
  | .started, .load => some { exec := bulkLoad row, row := row, tables := tables }
  | .loaded job, .markRunning now celeryTaskId commitError =>
    match commitError with
    | some text => some { exec := .raised (.other text), row := row, tables := tables }
    | none =>
      let written := flushJob job (markRunning now celeryTaskId job) row
      some { exec := enterLoop written, row := written, tables := tables }
  | .items job logs index successCount failures, .item now fault commitError =>
    logs[index]?.map fun item =>
      bulkItem job logs index successCount failures now fault commitError item row tables
  | .items job logs index successCount failures, .complete now commitError =>
    if index < logs.length then none
    else
      match commitError with
      | some text => some { exec := .raised (.other text), row := row, tables := tables }
      | none =>
        let status := bulkFinalStatus logs successCount failures.length
        let written := flushJob job (markCompleted now status (failureSummary failures) job) row
        some { exec := .returned status, row := written, tables := tables }
  | _, _ => none

/-- What a step of an execution does, whatever its copy of the row says. -/
inductive BulkMove (row : BackgroundJob) (tables : LogTables) :
    BulkExec → BulkEvent → BulkOutcome → Prop
  | loads : BulkMove row tables .started .load ⟨bulkLoad row, row, tables, none⟩
  | breaks {exec : BulkExec} {event : BulkEvent} {error : Raised} {t : LogTables} :
    exec.live = true → event.commitError ≠ none → RolledBack tables t →
    BulkMove row tables exec event ⟨.raised error, row, t, none⟩
  | enters (job : BackgroundJob) (now : Timestamp) (celeryTaskId : Option Str) :
    BulkMove row tables (.loaded job) (.markRunning now celeryTaskId none)
      ⟨enterLoop (flushJob job (markRunning now celeryTaskId job) row),
        flushJob job (markRunning now celeryTaskId job) row, tables, none⟩
  | persists (job : BackgroundJob) {logs : List LogIngestRequest} {index successCount : Nat}
    {failures : List BulkLogItemFailure} {now : Timestamp} {fault : PersistFault}
    {item : LogIngestRequest} {log : Log} {t : LogTables} : logs[index]? = some item →
    persistInSavepoint now fault item tables = (.ok log, t) →
    BulkMove row tables (.items job logs index successCount failures) (.item now fault none)
      ⟨.items (flushJob job (itemProgress index (successCount + 1) failures job) row) logs
          (index + 1) (successCount + 1) failures,
        flushJob job (itemProgress index (successCount + 1) failures job) row, t,
        some (index, log)⟩
  | fails (job : BackgroundJob) {logs : List LogIngestRequest} {index successCount : Nat}
    {failures : List BulkLogItemFailure} {now : Timestamp} {fault : PersistFault}
    {item : LogIngestRequest} {error : Raised} {t : LogTables} : logs[index]? = some item →
    persistInSavepoint now fault item tables = (.error error, t) →
    BulkMove row tables (.items job logs index successCount failures) (.item now fault none)
      ⟨.items (flushJob job (itemProgress index successCount
            (failures ++ [itemFailure index error]) job) row) logs (index + 1) successCount
          (failures ++ [itemFailure index error]),
        flushJob job (itemProgress index successCount
          (failures ++ [itemFailure index error]) job) row, t, none⟩
  | completes (job : BackgroundJob) {logs : List LogIngestRequest} {index successCount : Nat}
    {failures : List BulkLogItemFailure} (now : Timestamp) : logs.length ≤ index →
    BulkMove row tables (.items job logs index successCount failures) (.complete now none)
      ⟨.returned (bulkFinalStatus logs successCount failures.length),
        flushJob job (markCompleted now (bulkFinalStatus logs successCount failures.length)
          (failureSummary failures) job) row, tables, none⟩

theorem bulkItem_moves (job : BackgroundJob) (logs : List LogIngestRequest)
    (index successCount : Nat) (failures : List BulkLogItemFailure) (now : Timestamp)
    (fault : PersistFault) (commitError : Option Str) {item : LogIngestRequest}
    (row : BackgroundJob) (tables : LogTables) (here : logs[index]? = some item) :
    BulkMove row tables (.items job logs index successCount failures)
      (.item now fault commitError)
      (bulkItem job logs index successCount failures now fault commitError item row tables) := by
  unfold bulkItem
  cases commitError with
  | some text =>
    exact .breaks rfl (by simp [BulkEvent.commitError])
      ⟨rfl, rfl, persistInSavepoint_sequences now fault item tables⟩
  | none =>
    cases persisted : persistInSavepoint now fault item tables with
    | mk result t =>
      cases result with
      | ok log => exact .persists job here persisted
      | error e => exact .fails job here persisted

theorem bulkStep_moves {exec : BulkExec} {event : BulkEvent} {row : BackgroundJob}
    {tables : LogTables} {outcome : BulkOutcome}
    (moved : bulkStep exec event row tables = some outcome) :
    BulkMove row tables exec event outcome := by
  cases exec with
  | started =>
    cases event with
    | load =>
      cases moved
      exact .loads
    | markRunning | item | complete => cases moved
  | loaded job =>
    cases event with
    | markRunning now celeryTaskId commitError =>
      cases commitError with
      | some text =>
        cases moved
        exact .breaks rfl (by simp [BulkEvent.commitError]) (.refl tables)
      | none =>
        cases moved
        exact .enters job now celeryTaskId
    | load | item | complete => cases moved
  | items job logs index successCount failures =>
    cases event with
    | item now fault commitError =>
      simp only [bulkStep, Option.map_eq_some_iff] at moved
      obtain ⟨item, here, rfl⟩ := moved
      exact bulkItem_moves job logs index successCount failures now fault commitError row tables
        here
    | complete now commitError =>
      simp only [bulkStep] at moved
      split at moved
      · cases moved
      · rename_i last
        cases commitError with
        | some text =>
          cases moved
          exact .breaks rfl (by simp [BulkEvent.commitError]) (.refl tables)
        | none =>
          cases moved
          exact .completes job now (not_lt.mp last)
    | load | markRunning => cases moved
  | returned | raised => cases event <;> cases moved

/-- The copy an execution holds is the committed row. -/
def BulkExec.holds (row : BackgroundJob) : BulkExec → Prop
  | .loaded job | .items job .. => job = row
  | .started | .returned _ | .raised _ => True

/-- What a step of an execution does when its copy is the committed row. -/
inductive BulkEffect (row : BackgroundJob) (tables : LogTables) : BulkExec → BulkOutcome → Prop
  | loads : skipsExecution row.status = false →
    BulkEffect row tables .started ⟨.loaded row, row, tables, none⟩
  | skips : skipsExecution row.status = true →
    BulkEffect row tables .started ⟨.returned row.status, row, tables, none⟩
  | breaks {exec : BulkExec} {error : Raised} {t : LogTables} : exec.live = true →
    RolledBack tables t → BulkEffect row tables exec ⟨.raised error, row, t, none⟩
  | enters (now : Timestamp) (celeryTaskId : Option Str) : BulkEffect row tables (.loaded row)
    ⟨enterLoop (markRunning now celeryTaskId row), markRunning now celeryTaskId row, tables, none⟩
  | persists {logs : List LogIngestRequest} {index successCount : Nat}
    {failures : List BulkLogItemFailure} {now : Timestamp} {fault : PersistFault}
    {item : LogIngestRequest} {log : Log} {t : LogTables} : logs[index]? = some item →
    persistInSavepoint now fault item tables = (.ok log, t) →
    BulkEffect row tables (.items row logs index successCount failures)
      ⟨.items (itemProgress index (successCount + 1) failures row) logs (index + 1)
          (successCount + 1) failures,
        itemProgress index (successCount + 1) failures row, t, some (index, log)⟩
  | fails {logs : List LogIngestRequest} {index successCount : Nat}
    {failures : List BulkLogItemFailure} {now : Timestamp} {fault : PersistFault}
    {item : LogIngestRequest} {error : Raised} {t : LogTables} : logs[index]? = some item →
    persistInSavepoint now fault item tables = (.error error, t) →
    BulkEffect row tables (.items row logs index successCount failures)
      ⟨.items (itemProgress index successCount (failures ++ [itemFailure index error]) row) logs
          (index + 1) successCount (failures ++ [itemFailure index error]),
        itemProgress index successCount (failures ++ [itemFailure index error]) row, t, none⟩
  | completes {logs : List LogIngestRequest} {index successCount : Nat}
    {failures : List BulkLogItemFailure} (now : Timestamp) : logs.length ≤ index →
    BulkEffect row tables (.items row logs index successCount failures)
      ⟨.returned (bulkFinalStatus logs successCount failures.length),
        markCompleted now (bulkFinalStatus logs successCount failures.length)
          (failureSummary failures) row, tables, none⟩

omit [Platform] in
@[simp] theorem flushJob_itemProgress (index successCount : Nat)
    (failures : List BulkLogItemFailure) (row : BackgroundJob) :
    flushJob row (itemProgress index successCount failures row) row =
      itemProgress index successCount failures row :=
  flushJob_updateProgress ..

theorem bulkStep_effect {exec : BulkExec} {event : BulkEvent} {row : BackgroundJob}
    {tables : LogTables} {outcome : BulkOutcome} (fresh : exec.holds row)
    (moved : bulkStep exec event row tables = some outcome) :
    BulkEffect row tables exec outcome := by
  cases bulkStep_moves moved with
  | loads =>
    unfold bulkLoad
    cases skips : skipsExecution row.status with
    | true => exact .skips skips
    | false => exact .loads skips
  | breaks live _ rolledBack => exact .breaks live rolledBack
  | enters job now celeryTaskId =>
    cases fresh
    rw [flushJob_markRunning]
    exact .enters now celeryTaskId
  | persists job here persisted =>
    cases fresh
    rw [flushJob_itemProgress]
    exact .persists here persisted
  | fails job here persisted =>
    cases fresh
    rw [flushJob_itemProgress]
    exact .fails here persisted
  | completes job now last =>
    cases fresh
    rw [flushJob_markCompleted]
    exact .completes now last

/-- The items of a batch with what happened to each, one transaction after another. -/
def processBatch (items : List (LogIngestRequest × (Timestamp × PersistFault)))
    (t : LogTables) : LogTables :=
  items.foldl (fun t p => (persistInSavepoint p.2.1 p.2.2 p.1 t).2) t

theorem processBatch_append (items : List (LogIngestRequest × (Timestamp × PersistFault)))
    (item : LogIngestRequest) (now : Timestamp) (fault : PersistFault) (t : LogTables) :
    processBatch (items ++ [(item, now, fault)]) t =
      (persistInSavepoint now fault item (processBatch items t)).2 := by
  rw [processBatch, List.foldl_append]
  rfl

end Step

end LogLens
