import LogLens.AnalysisWorker
import LogLens.BulkWorker
import LogLens.CreateJobRace
import LogLens.Library.MessageBroker

/-! The requests that create jobs, the broker and the workers. A request takes the
steps of `create_job` and dispatches the task of the job it was answered with. A
task that raises is scheduled again at most `max_retries` times; the message of a
lost worker is delivered again. -/

namespace LogLens
open LabelledMachine MessageBroker

inductive TaskName
  | processBulkIngestionJob
  | runErrorGroupAnalysis
  deriving DecidableEq

def TaskName.jobType : TaskName → BackgroundJobType
  | .processBulkIngestionJob => .bulkLogIngest
  | .runErrorGroupAnalysis => .errorGroupAnalysis

structure TaskMessage where
  task : TaskName
  jobId : Str
  retries : Nat := 0
  deriving DecidableEq

/-- `LoggedTask.max_retries` -/
def maxRetries : Nat := 5

inductive TaskExec
  | bulk (exec : BulkExec)
  | analysis (exec : AnalysisExec)
  deriving DecidableEq

inductive TaskEvent
  | bulk (event : BulkEvent)
  | analysis (event : AnalysisEvent)
  deriving DecidableEq

def TaskName.start : TaskName → TaskExec
  | .processBulkIngestionJob => .bulk .started
  | .runErrorGroupAnalysis => .analysis .started

def TaskExec.task : TaskExec → TaskName
  | .bulk _ => .processBulkIngestionJob
  | .analysis _ => .runErrorGroupAnalysis

inductive TaskEnd
  | returned
  | raised
  deriving DecidableEq

def TaskExec.ending : TaskExec → Option TaskEnd
  | .bulk (.returned _) | .analysis (.returned _) => some .returned
  | .bulk (.raised _) | .analysis (.raised _) => some .raised
  | _ => none

/-- The copy of the job the session holds. -/
def TaskExec.copy : TaskExec → Option BackgroundJob
  | .bulk (.loaded job) | .bulk (.items job ..) => some job
  | .analysis (.loaded job) | .analysis (.prepared job _) | .analysis (.analyzing job ..) =>
    some job
  | _ => none

structure TaskOutcome where
  exec : TaskExec
  row : BackgroundJob
  logs : LogTables
  analyses : AnalysisTables

/-- `POST /logs/bulk` and `POST /error-groups/{group_id}/analyze` -/
inductive JobRequest
  | bulk (payload : BulkLogIngestRequest) (currentUser : Nat)
  | analyze (groupId currentUser : Nat)

def JobRequest.task : JobRequest → TaskName
  | .bulk .. => .processBulkIngestionJob
  | .analyze .. => .runErrorGroupAnalysis

def JobRequest.args (requestHash : List LogIngestRequest → Str) : JobRequest → CreateJobArgs
  | .bulk payload currentUser => bulkJobArgs requestHash payload currentUser
  | .analyze groupId currentUser => analysisJobArgs groupId currentUser

structure JobSystem (ι : Type) where
  calls : JobCalls ι := {}
  /-- the call of `delay` returned or raised -/
  dispatched : ι → Bool := fun _ => false
  broker : Broker TaskMessage TaskExec := {}
  logs : LogTables := {}
  analyses : AnalysisTables := {}

inductive JobOp (ι : Type)
  | request (i : ι)
  | dispatch (i : ι)
  | dispatchRaises (i : ι)
  | deliver (message : TaskMessage)
  | work (n : Nat) (event : TaskEvent)
  | redeliver (n : Nat)
  | lose (n : Nat)
  | due (message : TaskMessage)
  /-- other transactions on the log tables -/
  | logs (tables : LogTables)

section Machine
variable {ι : Type} [DecidableEq ι] [Platform] (jobId : ι → Str)
  (requestHash : List LogIngestRequest → Str) (requests : ι → JobRequest)

def jobArgs (i : ι) : CreateJobArgs := (requests i).args requestHash

/-- `create_analysis_job` raises NotFoundError before `create_job`. -/
def JobSystem.admits (s : JobSystem ι) (i : ι) : Bool :=
  match requests i, s.calls.phase i with
  | .analyze groupId _, .selectByKey => s.logs.errorGroups.any fun g => g.id = groupId
  | _, _ => true

/-- The job a request is to dispatch. -/
def JobSystem.undispatched (s : JobSystem ι) (i : ι) : Option BackgroundJob :=
  match s.calls.phase i with
  | .finished (.ok job) _ => if s.dispatched i then none else some job
  | _ => none

def JobSystem.endDispatch (s : JobSystem ι) (i : ι) : JobSystem ι :=
  { s with dispatched := Function.update s.dispatched i true }

def taskStep (exec : TaskExec) (event : TaskEvent) (row : BackgroundJob)
    (others uncommitted : List BackgroundJob) (logs : LogTables) (analyses : AnalysisTables) :
    Option TaskOutcome :=
  match exec, event with
  | .bulk exec, .bulk event =>
    (bulkStep exec event row logs).map fun outcome =>
      ⟨.bulk outcome.exec, outcome.row, outcome.tables, analyses⟩
  | .analysis exec, .analysis event =>
    (analysisStep row logs analyses exec event others uncommitted).map fun outcome =>
      ⟨.analysis outcome.exec, outcome.row, logs, outcome.tables⟩
  | _, _ => none

/-- What a step of an execution makes of a row. -/
def JobSystem.outcome (s : JobSystem ι) (exec : TaskExec) (event : TaskEvent)
    (row : BackgroundJob) : Option TaskOutcome :=
  taskStep exec event row (s.calls.jobs.filter fun other => other.id ≠ row.id)
    (s.calls.uncommitted.map (·.2)) s.logs s.analyses

omit [DecidableEq ι] [Platform] in
/-- The broker after a step of delivery `n`. -/
def settle (b : Broker TaskMessage TaskExec) (n : Nat) (message : TaskMessage) (exec : TaskExec) :
    Broker TaskMessage TaskExec :=
  match exec.ending with
  | none => b.advance n message exec
  | some .returned => b.acknowledge n
  | some .raised =>
    if message.retries < maxRetries then b.retry n { message with retries := message.retries + 1 }
    else b.acknowledge n

def JobSystem.work (s : JobSystem ι) (n : Nat) (event : TaskEvent) : Option (JobSystem ι) :=
  s.broker.deliveries[n]?.bind fun d =>
    match s.calls.jobs.find? fun row => row.id = d.1.jobId with
    | none => some { s with broker := s.broker.acknowledge n }
    | some row =>
      (s.outcome d.2 event row).bind fun outcome =>
        (s.calls.write outcome.row).map fun calls =>
          { s with
            calls := calls
            broker := settle s.broker n d.1 outcome.exec
            logs := outcome.logs
            analyses := outcome.analyses }

def jobMachine : Machine (JobSystem ι) (JobOp ι) where
  step s
    | .request i =>
      if s.admits requests i then
        (s.calls.call jobId (jobArgs requestHash requests) i).map fun calls =>
          { s with calls := calls }
      else none
    | .dispatch i => (s.undispatched i).map fun job =>
        { s.endDispatch i with broker := s.broker.send ⟨(requests i).task, job.id, 0⟩ }
    | .dispatchRaises i => (s.undispatched i).map fun _ => s.endDispatch i
    | .deliver message =>
      (s.broker.deliver message message.task.start).map fun broker => { s with broker := broker }
    | .work n event => s.work n event
    | .redeliver n => (s.broker.redeliver n).map fun broker => { s with broker := broker }
    | .lose n => (s.broker.lose n).map fun broker => { s with broker := broker }
    | .due message => (s.broker.due message).map fun broker => { s with broker := broker }
    | .logs tables => some { s with logs := tables }

end Machine

section Specifications

/-- The last `mark_completed` finds its status in the copy already and writes none. -/
def TaskExec.staleCompletion : TaskExec → TaskEvent → Bool
  | .bulk (.items job logs _ successCount failures), .bulk (.complete _ none) =>
    job.status = bulkFinalStatus logs successCount failures.length
  | _, _ => false

/-- A row of a bulk job. -/
def BulkRow (row : BackgroundJob) : Prop :=
  row.scopeKey = none ∧ ∃ item rest, row.payload.logs = some (item :: rest)

structure TaskExec.Valid (exec : TaskExec) (row : BackgroundJob) : Prop where
  copy : ∀ job ∈ exec.copy, SameCall job row
  bulk : exec.task = .processBulkIngestionJob → BulkRow row
  looping : ∀ job logs index successCount failures,
    exec = .bulk (.items job logs index successCount failures) → logs ≠ []

/-- What a step of an execution does to the row of its job. -/
structure TaskSpec (exec : TaskExec) (event : TaskEvent) (row : BackgroundJob)
    (outcome : TaskOutcome) : Prop where
  task : outcome.exec.task = exec.task
  same : SameCall outcome.row row
  copy : ∀ job ∈ outcome.exec.copy, job = outcome.row ∨ (job ∈ exec.copy ∧ outcome.row = row)
  looping : ∀ job logs index successCount failures,
    outcome.exec = .bulk (.items job logs index successCount failures) → logs ≠ []
  raised : outcome.exec.ending = some .raised → outcome.row.status = row.status
  returned : outcome.exec.ending = some .returned → exec.staleCompletion event = false →
    outcome.row.status.active = false
  stale : exec.staleCompletion event = true →
    outcome.exec.ending = some .returned ∧ outcome.row.status = row.status

theorem SameCall.symm {a b : BackgroundJob} (h : SameCall a b) : SameCall b a :=
  ⟨h.1.symm, h.2.1.symm, h.2.2.1.symm, h.2.2.2.1.symm, h.2.2.2.2.1.symm, h.2.2.2.2.2.symm⟩

theorem flushJob_same {loaded new row : BackgroundJob}
    (hash : new.payload.requestHash = row.payload.requestHash)
    (logs : new.payload.logs = row.payload.logs) : SameCall (flushJob loaded new row) row := by
  refine ⟨rfl, rfl, rfl, rfl, ?_, ?_⟩
  · simp only [flushJob, flushColumn]
    split
    · rfl
    · exact hash
  · simp only [flushJob, flushColumn]
    split
    · rfl
    · exact logs

theorem copy_of_ending {exec : TaskExec} {how : TaskEnd} (ended : exec.ending = some how) :
    exec.copy = none := by
  cases exec with
  | bulk exec => cases exec <;> first | rfl | cases ended
  | analysis exec => cases exec <;> first | rfl | cases ended

/-- A step that raises out of the task. -/
theorem taskSpec_raise {exec : TaskExec} {event : TaskEvent} {row : BackgroundJob}
    {ended : TaskExec} (task : ended.task = exec.task)
    (raised : ended.ending = some .raised) (fresh : exec.staleCompletion event = false)
    (logs : LogTables) (analyses : AnalysisTables) :
    TaskSpec exec event row ⟨ended, row, logs, analyses⟩ where
  task := task
  same := SameCall.refl row
  copy := by
    intro job held
    rw [copy_of_ending raised] at held
    cases held
  looping := by
    rintro job items index successCount failures rfl
    cases raised
  raised _ := rfl
  returned returned := by
    rw [raised] at returned
    cases returned
  stale stale := by
    rw [fresh] at stale
    cases stale

section Steps
variable [Platform] {row : BackgroundJob} {logs : LogTables} {analyses : AnalysisTables}

omit [Platform] in
/-- The loop body writes the progress to its copy and to the row. -/
theorem bulkProgress_spec {job : BackgroundJob} {items : List LogIngestRequest}
    {index successCount : Nat} {failures : List BulkLogItemFailure} {now : Timestamp}
    {fault : PersistFault}
    (valid : (TaskExec.bulk (.items job items index successCount failures)).Valid row)
    (count : Nat) (failures' : List BulkLogItemFailure) (tables : LogTables) :
    TaskSpec (.bulk (.items job items index successCount failures)) (.bulk (.item now fault none))
      row
      ⟨.bulk (.items (flushJob job (itemProgress index count failures' job) row) items
        (index + 1) count failures'),
        flushJob job (itemProgress index count failures' job) row, tables, analyses⟩ := by
  have same := valid.copy job rfl
  refine ⟨rfl, flushJob_same same.2.2.2.2.1 same.2.2.2.2.2, ?_, ?_,
    by rintro ⟨⟩, by rintro ⟨⟩, by rintro ⟨⟩⟩
  · rintro job ⟨⟩
    exact .inl rfl
  · rintro _ _ _ _ _ ⟨⟩
    exact valid.looping job items index successCount failures rfl

omit [Platform] in
/-- The last step writes a terminal status, unless its copy holds that status already. -/
theorem bulkComplete_spec {job : BackgroundJob} {items : List LogIngestRequest}
    {index successCount : Nat} {failures : List BulkLogItemFailure} {now : Timestamp}
    (valid : (TaskExec.bulk (.items job items index successCount failures)).Valid row) :
    TaskSpec (.bulk (.items job items index successCount failures)) (.bulk (.complete now none))
      row
      ⟨.bulk (.returned (bulkFinalStatus items successCount failures.length)),
        flushJob job (markCompleted now (bulkFinalStatus items successCount failures.length)
          (failureSummary failures) job) row, logs, analyses⟩ := by
  have same := valid.copy job rfl
  have nonempty := valid.looping job items index successCount failures rfl
  refine ⟨rfl, flushJob_same same.2.2.2.2.1 same.2.2.2.2.2, by rintro job ⟨⟩,
    by rintro _ _ _ _ _ ⟨⟩, by rintro ⟨⟩, ?_, ?_⟩
  · intro _ fresh
    have written : job.status ≠ bulkFinalStatus items successCount failures.length := by
      simpa [TaskExec.staleCompletion] using fresh
    change (flushColumn job.status (bulkFinalStatus items successCount failures.length)
      row.status).active = false
    rw [flushColumn_changed (Ne.symm written)]
    exact inactive_of_skips (bulkFinalStatus_skips nonempty successCount failures.length)
  · intro stale
    have unwritten : job.status = bulkFinalStatus items successCount failures.length := by
      simpa [TaskExec.staleCompletion] using stale
    refine ⟨rfl, ?_⟩
    change flushColumn job.status (bulkFinalStatus items successCount failures.length)
      row.status = row.status
    rw [← unwritten, flushColumn_unchanged]

omit [Platform] in
theorem enterLoop_valid {job : BackgroundJob} (valid : (TaskExec.bulk (.loaded job)).Valid row)
    (now : Timestamp) (celeryTaskId : Option Str) :
    ∃ first rest, enterLoop (flushJob job (markRunning now celeryTaskId job) row) =
      .items (flushJob job (markRunning now celeryTaskId job) row) (first :: rest) 0 0 [] := by
  obtain ⟨-, first, rest, payload⟩ := valid.bulk rfl
  have same := valid.copy job rfl
  have written : SameCall (flushJob job (markRunning now celeryTaskId job) row) row :=
    flushJob_same same.2.2.2.2.1 same.2.2.2.2.2
  exact ⟨first, rest,
    enterLoop_logs _ (written.2.2.2.2.2.trans payload) (List.cons_ne_nil first rest)⟩

theorem bulkStep_spec {exec : BulkExec} {event : BulkEvent} {outcome : BulkOutcome}
    (valid : (TaskExec.bulk exec).Valid row) (moved : bulkStep exec event row logs = some outcome) :
    TaskSpec (.bulk exec) (.bulk event) row
      ⟨.bulk outcome.exec, outcome.row, outcome.tables, analyses⟩ := by
  cases bulkStep_moves moved with
  | loads =>
    refine ⟨rfl, .refl row, ?_, ?_, ?_, ?_, by rintro ⟨⟩⟩ <;> simp only [bulkLoad]
    · split <;> rintro job ⟨⟩
      exact .inl rfl
    · split <;> rintro _ _ _ _ _ ⟨⟩
    · split <;> rintro ⟨⟩
    · split
      · rename_i skips
        exact fun _ _ => inactive_of_skips skips
      · rintro ⟨⟩
  | breaks _ failing _ =>
    refine taskSpec_raise (by rfl) (by rfl) ?_ _ analyses
    cases event with
    | load => exact absurd rfl failing
    | markRunning | item => cases exec <;> rfl
    | complete now commitError =>
      cases commitError with
      | none => exact absurd rfl failing
      | some text => cases exec <;> rfl
  | enters job now celeryTaskId =>
    have same := valid.copy job rfl
    obtain ⟨first, rest, entered⟩ := enterLoop_valid valid now celeryTaskId
    rw [entered]
    refine ⟨rfl, flushJob_same same.2.2.2.2.1 same.2.2.2.2.2, ?_, ?_,
      by rintro ⟨⟩, by rintro ⟨⟩, by rintro ⟨⟩⟩
    · rintro job ⟨⟩
      exact .inl rfl
    · rintro _ _ _ _ _ ⟨⟩
      exact List.cons_ne_nil _ _
  | persists => exact bulkProgress_spec valid _ _ _
  | fails => exact bulkProgress_spec valid _ _ _
  | completes => exact bulkComplete_spec valid

omit [Platform] in
theorem analysisStep_spec {exec : AnalysisExec} {event : AnalysisEvent} {outcome : AnalysisOutcome}
    {rivals : List BackgroundJob} (valid : (TaskExec.analysis exec).Valid row)
    (effect : AnalysisEffect row logs analyses rivals exec event outcome) :
    TaskSpec (.analysis exec) (.analysis event) row
      ⟨.analysis outcome.exec, outcome.row, logs, outcome.tables⟩ := by
  -- a copy that leaves `request_hash` and the logs alone is flushed into a row of the same call
  have written {job new : BackgroundJob} (held : (TaskExec.analysis exec).copy = some job)
      (same : new.payload = job.payload) : SameCall (flushJob job new row) row :=
    flushJob_same (same ▸ (valid.copy job held).2.2.2.2.1) (same ▸ (valid.copy job held).2.2.2.2.2)
  cases effect with
  | loads =>
    refine ⟨rfl, .refl row, ?_, by rintro _ _ _ _ _ ⟨⟩, by rintro ⟨⟩, by rintro ⟨⟩, by rintro ⟨⟩⟩
    rintro job ⟨⟩
    exact .inl rfl
  | skips skips =>
    exact ⟨rfl, .refl row, by rintro job ⟨⟩, by rintro _ _ _ _ _ ⟨⟩, by rintro ⟨⟩,
      fun _ _ => inactive_of_skips skips, by rintro ⟨⟩⟩
  | breaks => exact taskSpec_raise (by rfl) (by rfl) (by rfl) logs _
  | prepares =>
    refine ⟨rfl, written rfl rfl, ?_, by rintro _ _ _ _ _ ⟨⟩, by rintro ⟨⟩, by rintro ⟨⟩,
      by rintro ⟨⟩⟩
    rintro job ⟨⟩
    exact .inl rfl
  | misses =>
    exact ⟨rfl, written rfl rfl, by rintro job ⟨⟩, by rintro _ _ _ _ _ ⟨⟩, by rintro ⟨⟩,
      fun _ _ => rfl, by rintro ⟨⟩⟩
  | selects =>
    exact ⟨rfl, .refl row, fun job held => .inr ⟨held, rfl⟩, by rintro _ _ _ _ _ ⟨⟩,
      by rintro ⟨⟩, by rintro ⟨⟩, by rintro ⟨⟩⟩
  | completes | fails =>
    exact ⟨rfl, written rfl rfl, by rintro job ⟨⟩, by rintro _ _ _ _ _ ⟨⟩, by rintro ⟨⟩,
      fun _ _ => rfl, by rintro ⟨⟩⟩

theorem taskStep_spec {exec : TaskExec} {event : TaskEvent}
    {others uncommitted : List BackgroundJob} {outcome : TaskOutcome} (valid : exec.Valid row)
    (moved : taskStep exec event row others uncommitted logs analyses = some outcome) :
    TaskSpec exec event row outcome := by
  cases exec with
  | bulk exec =>
    cases event with
    | bulk event =>
      obtain ⟨done, stepped, rfl⟩ := Option.map_eq_some_iff.mp moved
      exact bulkStep_spec valid stepped
    | analysis => cases moved
  | analysis exec =>
    cases event with
    | analysis event =>
      obtain ⟨done, stepped, rfl⟩ := Option.map_eq_some_iff.mp moved
      exact analysisStep_spec valid (analysisStep_effect _ _ _ stepped)
    | bulk => cases moved

end Steps
end Specifications

section Invariant
variable {ι : Type} {jobId : ι → Str} {requestHash : List LogIngestRequest → Str}
  {requests : ι → JobRequest}

structure JobInvariant (jobId : ι → Str) (requestHash : List LogIngestRequest → Str)
    (requests : ι → JobRequest) (s : JobSystem ι) : Prop where
  calls : CallsInvariant jobId (jobArgs requestHash requests) s.calls
  ended : ∀ i, s.dispatched i = true → ∃ answer seen, s.calls.phase i = .finished answer seen
  messages : ∀ m ∈ s.broker.messages, ∃ row ∈ s.calls.jobs, row.id = m.jobId ∧
    row.jobType = m.task.jobType
  tasks : ∀ d ∈ s.broker.deliveries, d.2.task = d.1.task
  execs : ∀ d ∈ s.broker.deliveries, ∀ row ∈ s.calls.jobs, row.id = d.1.jobId → d.2.Valid row

theorem jobInvariant_initial (logs : LogTables) (analyses : AnalysisTables) :
    JobInvariant jobId requestHash requests { logs := logs, analyses := analyses } where
  calls := callsInvariant_initial
  ended := by rintro i ⟨⟩
  messages := by rintro m ⟨⟩
  tasks := by rintro d ⟨⟩
  execs := by rintro d ⟨⟩

theorem start_valid {task : TaskName} {row : BackgroundJob}
    (bulk : task = .processBulkIngestionJob → BulkRow row) : task.start.Valid row := by
  cases task with
  | processBulkIngestionJob => exact ⟨by rintro job ⟨⟩, fun _ => bulk rfl, by rintro _ _ _ _ _ ⟨⟩⟩
  | runErrorGroupAnalysis => exact ⟨by rintro job ⟨⟩, by rintro ⟨⟩, by rintro _ _ _ _ _ ⟨⟩⟩

theorem BulkRow.same {row row' : BackgroundJob} (h : BulkRow row) (same : SameCall row' row) :
    BulkRow row' := by
  obtain ⟨unscoped, item, rest, payload⟩ := h
  exact ⟨same.2.2.2.1.trans unscoped, item, rest, same.2.2.2.2.2.trans payload⟩

theorem TaskExec.Valid.same {exec : TaskExec} {row row' : BackgroundJob} (valid : exec.Valid row)
    (same : SameCall row' row) : exec.Valid row' where
  copy job held := (valid.copy job held).trans same.symm
  bulk task := (valid.bulk task).same same
  looping := valid.looping

/-- An execution is valid for the row it wrote. -/
theorem TaskSpec.valid {exec : TaskExec} {event : TaskEvent} {row : BackgroundJob}
    {outcome : TaskOutcome} (spec : TaskSpec exec event row outcome) (valid : exec.Valid row) :
    outcome.exec.Valid outcome.row where
  copy job held := by
    cases spec.copy job held with
    | inl new => exact new ▸ SameCall.refl _
    | inr old => exact old.2 ▸ valid.copy job old.1
  bulk task := (valid.bulk (spec.task ▸ task)).same spec.same
  looping := spec.looping

theorem mem_writeRow {jobs : List BackgroundJob} {written row : BackgroundJob}
    (here : ∃ old ∈ jobs, old.id = written.id) :
    row ∈ jobs.map (writeRow written) ↔ row = written ∨ (row ∈ jobs ∧ row.id ≠ written.id) := by
  simp only [List.mem_map, writeRow]
  constructor
  · rintro ⟨old, ho, rfl⟩
    split
    · exact .inl rfl
    · rename_i other
      exact .inr ⟨ho, other⟩
  · rintro (rfl | ⟨hr, other⟩)
    · obtain ⟨old, ho, same⟩ := here
      exact ⟨old, ho, if_pos same⟩
    · exact ⟨row, hr, if_neg other⟩

namespace JobInvariant
variable {s t : JobSystem ι}

theorem bulkRow (holds : JobInvariant jobId requestHash requests s) {row : BackgroundJob}
    (hr : row ∈ s.calls.jobs) (type : row.jobType = .bulkLogIngest) : BulkRow row := by
  obtain ⟨i, -, -, -, same⟩ := holds.calls.committed row hr
  have named : (jobArgs requestHash requests i).jobType = .bulkLogIngest := same.2.1.symm.trans type
  refine BulkRow.same ?_ same
  unfold BulkRow callRow jobArgs at *
  cases request : requests i with
  | analyze =>
    rw [request] at named
    cases named
  | bulk payload currentUser =>
    refine ⟨rfl, ?_⟩
    cases logs : payload.logs with
    | nil => exact absurd payload.logs_length (by simp [logs])
    | cons item rest => exact ⟨item, rest, congrArg some logs⟩

theorem eq_of_id (holds : JobInvariant jobId requestHash requests s) {a b : BackgroundJob}
    (ha : a ∈ s.calls.jobs) (hb : b ∈ s.calls.jobs) (same : a.id = b.id) : a = b :=
  List.inj_on_of_nodup_map holds.calls.ids ha hb same

/-- A message that is taken up starts a valid execution. -/
theorem started (holds : JobInvariant jobId requestHash requests s) {m : TaskMessage}
    (hm : m ∈ s.broker.messages) {row : BackgroundJob} (hr : row ∈ s.calls.jobs)
    (sameId : row.id = m.jobId) : m.task.start.Valid row := by
  refine start_valid fun task => holds.bulkRow hr ?_
  obtain ⟨row', hr', sameId', type⟩ := holds.messages m hm
  rw [holds.eq_of_id hr hr' (sameId.trans sameId'.symm), type, task]
  rfl

/-- A step of the broker that keeps its messages and starts valid executions. -/
theorem brokered (holds : JobInvariant jobId requestHash requests s)
    {broker : Broker TaskMessage TaskExec}
    (messages : ∀ m ∈ broker.messages, m ∈ s.broker.messages)
    (deliveries : ∀ d ∈ broker.deliveries, d ∈ s.broker.deliveries ∨
      (d.1 ∈ s.broker.messages ∧ d.2 = d.1.task.start)) :
    JobInvariant jobId requestHash requests { s with broker := broker } where
  calls := holds.calls
  ended := holds.ended
  messages m hm := holds.messages m (messages m hm)
  tasks d hd := by
    obtain old | ⟨-, new⟩ := deliveries d hd
    · exact holds.tasks d old
    · rw [new]
      cases d.1.task <;> rfl
  execs d hd row hr sameId := by
    obtain old | ⟨sent, new⟩ := deliveries d hd
    · exact holds.execs d old row hr sameId
    · exact new ▸ holds.started sent hr sameId

/-- A message of a committed job and its task is sent. -/
theorem sent (holds : JobInvariant jobId requestHash requests s) {message : TaskMessage}
    (known : ∃ row ∈ s.calls.jobs, row.id = message.jobId ∧ row.jobType = message.task.jobType) :
    JobInvariant jobId requestHash requests { s with broker := s.broker.send message } where
  calls := holds.calls
  ended := holds.ended
  messages m hm := by
    obtain rfl | old := List.mem_cons.mp (messages_send.mem_iff.mp hm)
    · exact known
    · exact holds.messages m old
  tasks := holds.tasks
  execs := holds.execs

theorem undispatched_some {i : ι} {job : BackgroundJob} (found : s.undispatched i = some job) :
    s.dispatched i = false ∧ ∃ seen, s.calls.phase i = .finished (.ok job) seen := by
  unfold JobSystem.undispatched at found
  split at found
  · rename_i job' seen done
    split at found <;> cases found
    rename_i waiting
    exact ⟨Bool.eq_false_iff.mpr waiting, seen, done⟩
  · cases found

variable [DecidableEq ι]

theorem endDispatch (holds : JobInvariant jobId requestHash requests s) {i : ι}
    {job : BackgroundJob} (found : s.undispatched i = some job) :
    JobInvariant jobId requestHash requests (s.endDispatch i) where
  calls := holds.calls
  ended k dispatched := by
    by_cases own : k = i
    · subst own
      obtain ⟨-, seen, done⟩ := undispatched_some found
      exact ⟨_, seen, done⟩
    · change Function.update s.dispatched i true k = true at dispatched
      rw [Function.update_of_ne own] at dispatched
      exact holds.ended k dispatched
  messages := holds.messages
  tasks := holds.tasks
  execs := holds.execs

theorem called (holds : JobInvariant jobId requestHash requests s)
    (fresh : Function.Injective jobId) {i : ι} {calls : JobCalls ι}
    (effect : CallEffect jobId (jobArgs requestHash requests) s.calls i calls) :
    JobInvariant jobId requestHash requests { s with calls := calls } := by
  refine ⟨holds.calls.call fresh effect, fun k dispatched => ?_, fun m hm => ?_, holds.tasks,
    fun d hd row hr sameId => ?_⟩
  · obtain ⟨answer, seen, done⟩ := holds.ended k dispatched
    exact ⟨answer, seen, (call_phase effect (.inr ⟨answer, seen, done⟩)).trans done⟩
  · obtain ⟨row, hr, rest⟩ := holds.messages m hm
    refine ⟨row, ?_, rest⟩
    obtain same | added := call_jobs effect
    · exact same ▸ hr
    · exact added ▸ List.mem_append_left _ hr
  · cases effect with
    | answers | passes | rejects | clashes | inserts => exact holds.execs d hd row hr sameId
    | publishes committing =>
      obtain old | new := List.mem_append.mp hr
      · exact holds.execs d hd row old sameId
      · rw [List.mem_singleton] at new
        subst new
        have sent : d.1 ∈ s.broker.messages :=
          List.mem_append_right _ (List.mem_append_right _ (List.mem_map_of_mem hd))
        obtain ⟨known, hk, sameKnown, -⟩ := holds.messages d.1 sent
        refine absurd (sameKnown.trans sameId.symm) (holds.calls.unfinished fresh ?_ hk)
        rintro answer seen done
        rw [committing] at done
        cases done

omit [DecidableEq ι] in
/-- The messages a step of an execution leaves are of the jobs and tasks of before. -/
theorem mem_settle {b : Broker TaskMessage TaskExec} {n : Nat} {d : TaskMessage × TaskExec}
    (here : b.deliveries[n]? = some d) {exec : TaskExec} {m : TaskMessage}
    (hm : m ∈ (settle b n d.1 exec).messages) :
    ∃ m' ∈ b.messages, m.jobId = m'.jobId ∧ m.task = m'.task := by
  have all := messages_perm_others here
  have others : ∀ m ∈ b.others n, m ∈ b.messages := fun m hm =>
    all.mem_iff.mpr (List.mem_cons_of_mem _ hm)
  unfold settle at hm
  split at hm
  · rw [messages_advance here] at hm
    exact ⟨m, hm, rfl, rfl⟩
  · exact ⟨m, others m hm, rfl, rfl⟩
  · split at hm
    · obtain rfl | old := List.mem_cons.mp (messages_retry.mem_iff.mp hm)
      · exact ⟨d.1, mem_messages here, rfl, rfl⟩
      · exact ⟨m, others m old, rfl, rfl⟩
    · exact ⟨m, others m hm, rfl, rfl⟩

omit [DecidableEq ι] in
theorem mem_settle_deliveries {b : Broker TaskMessage TaskExec} {n : Nat}
    {message : TaskMessage} {exec : TaskExec} {e : TaskMessage × TaskExec}
    (he : e ∈ (settle b n message exec).deliveries) :
    e ∈ b.deliveries ∨ e = (message, exec) := by
  unfold settle at he
  split at he
  · exact (List.mem_or_eq_of_mem_set he)
  · exact .inl (List.mem_of_mem_eraseIdx he)
  · split at he <;> exact .inl (List.mem_of_mem_eraseIdx he)

variable [Platform]

omit [DecidableEq ι] in
/-- What a step of delivery `n` does. -/
theorem work_cases (holds : JobInvariant jobId requestHash requests s) {n : Nat} {event : TaskEvent}
    (moved : s.work n event = some t) :
    ∃ d row outcome, s.broker.deliveries[n]? = some d ∧ row ∈ s.calls.jobs ∧ row.id = d.1.jobId ∧
      s.outcome d.2 event row = some outcome ∧ (∃ calls, s.calls.write outcome.row = some calls ∧
        t = { s with
          calls := calls
          broker := settle s.broker n d.1 outcome.exec
          logs := outcome.logs
          analyses := outcome.analyses }) ∧
      TaskSpec d.2 event row outcome := by
  unfold JobSystem.work at moved
  obtain ⟨d, here, moved⟩ := Option.bind_eq_some_iff.mp moved
  have sent := mem_messages here
  cases found : s.calls.jobs.find? fun row => row.id = d.1.jobId with
  | none =>
    obtain ⟨row, hr, sameId, -⟩ := holds.messages d.1 sent
    exact absurd (decide_eq_true sameId) (List.find?_eq_none.mp found row hr)
  | some row =>
    simp only [found] at moved
    obtain ⟨outcome, stepped, moved⟩ := Option.bind_eq_some_iff.mp moved
    obtain ⟨calls, wrote, rfl⟩ := Option.map_eq_some_iff.mp moved
    have hr := List.mem_of_find?_eq_some found
    have sameId : row.id = d.1.jobId := by simpa using List.find?_some found
    have valid := holds.execs d (List.mem_of_getElem? here) row hr sameId
    exact ⟨d, row, outcome, here, hr, sameId, stepped, ⟨calls, wrote, rfl⟩,
      taskStep_spec valid stepped⟩

omit [DecidableEq ι] in
theorem worked (holds : JobInvariant jobId requestHash requests s) {n : Nat} {event : TaskEvent}
    (moved : s.work n event = some t) : JobInvariant jobId requestHash requests t := by
  obtain ⟨d, row, outcome, here, hr, sameId, -, ⟨calls, wrote, rfl⟩, spec⟩ := holds.work_cases moved
  have hd := List.mem_of_getElem? here
  have valid := spec.valid (holds.execs d hd row hr sameId)
  have next := holds.calls.write wrote
  obtain ⟨rfl, -, -⟩ := write_rows wrote
  have rows (row' : BackgroundJob) : row' ∈ s.calls.jobs.map (writeRow outcome.row) ↔
      row' = outcome.row ∨ (row' ∈ s.calls.jobs ∧ row'.id ≠ outcome.row.id) :=
    mem_writeRow ⟨row, hr, spec.same.1.symm⟩
  refine ⟨next, holds.ended, fun m hm => ?_, fun e he => ?_, fun e he row' hr' sameId' => ?_⟩
  · obtain ⟨m', hm', job, task⟩ := mem_settle here hm
    obtain ⟨old, ho, id, type⟩ := holds.messages m' hm'
    rw [job, task]
    by_cases own : old.id = outcome.row.id
    · refine ⟨outcome.row, (rows outcome.row).mpr (.inl rfl), own.symm.trans id, ?_⟩
      rw [spec.same.2.1, ← type, holds.eq_of_id ho hr (own.trans spec.same.1)]
    · exact ⟨old, (rows old).mpr (.inr ⟨ho, own⟩), id, type⟩
  · obtain old | rfl := mem_settle_deliveries he
    · exact holds.tasks e old
    · exact spec.task.trans (holds.tasks d hd)
  · obtain old | rfl := mem_settle_deliveries he
    · obtain rfl | ⟨other, -⟩ := (rows row').mp hr'
      · have own := holds.execs e old row hr (spec.same.1.symm.trans sameId')
        exact own.same spec.same
      · exact holds.execs e old row' other sameId'
    · obtain rfl | ⟨other, -⟩ := (rows row').mp hr'
      · exact valid
      · rw [holds.eq_of_id other hr (sameId'.trans sameId.symm)]
        exact valid.same spec.same.symm

theorem next (holds : JobInvariant jobId requestHash requests s)
    (fresh : Function.Injective jobId) {op : JobOp ι}
    (moved : (jobMachine jobId requestHash requests).step s op = some t) :
    JobInvariant jobId requestHash requests t := by
  cases op with
  | request i =>
    change (if _ then _ else _) = _ at moved
    split at moved
    · obtain ⟨calls, called, rfl⟩ := Option.map_eq_some_iff.mp moved
      exact holds.called fresh (call_effect called)
    · cases moved
  | dispatch i =>
    obtain ⟨job, found, rfl⟩ := Option.map_eq_some_iff.mp moved
    obtain ⟨-, seen, done⟩ := undispatched_some found
    refine (holds.endDispatch found).sent ?_
    obtain ⟨row, hr, sameId, type⟩ := holds.calls.answered_row done
    refine ⟨row, hr, sameId, type.trans ?_⟩
    unfold jobArgs
    cases requests i <;> rfl
  | dispatchRaises i =>
    obtain ⟨job, found, rfl⟩ := Option.map_eq_some_iff.mp moved
    exact holds.endDispatch found
  | deliver m =>
    obtain ⟨broker, delivered, rfl⟩ := Option.map_eq_some_iff.mp moved
    have same := messages_deliver delivered
    refine holds.brokered (fun m hm => same.mem_iff.mp hm) fun d hd => ?_
    rw [deliveries_deliver delivered, List.mem_append, List.mem_singleton] at hd
    obtain old | rfl := hd
    · exact .inl old
    · refine .inr ⟨same.mem_iff.mp ?_, rfl⟩
      refine List.mem_append_right _ (List.mem_append_right _ ?_)
      rw [deliveries_deliver delivered]
      simp
  | work n event => exact holds.worked moved
  | redeliver n =>
    obtain ⟨broker, redelivered, rfl⟩ := Option.map_eq_some_iff.mp moved
    obtain ⟨message, known, same⟩ := messages_redeliver redelivered
    refine holds.brokered (fun m hm => ?_) fun d hd => .inl (deliveries_redeliver redelivered ▸ hd)
    obtain rfl | old := List.mem_cons.mp (same.mem_iff.mp hm)
    · exact known
    · exact old
  | lose n =>
    obtain ⟨broker, lost, rfl⟩ := Option.map_eq_some_iff.mp moved
    refine holds.brokered (fun m hm => (messages_lose lost).mem_iff.mp hm) fun d hd => ?_
    rw [deliveries_lose lost] at hd
    exact .inl (List.mem_of_mem_eraseIdx hd)
  | due m =>
    obtain ⟨broker, came, rfl⟩ := Option.map_eq_some_iff.mp moved
    refine holds.brokered (fun m hm => (messages_due came).mem_iff.mp hm) fun d hd => ?_
    rw [deliveries_due came] at hd
    exact .inl hd
  | logs tables =>
    cases moved
    exact ⟨holds.calls, holds.ended, holds.messages, holds.tasks, holds.execs⟩

end JobInvariant

theorem deliveries_perm {b : Broker TaskMessage TaskExec} {n : Nat} {d : TaskMessage × TaskExec}
    (here : b.deliveries[n]? = some d) :
    b.deliveries.Perm (d :: b.deliveries.eraseIdx n) := by
  obtain ⟨inside, rfl⟩ := List.getElem?_eq_some_iff.mp here
  exact (List.getElem_cons_eraseIdx_perm inside).symm

/-- An execution at work is among the deliveries with the others. -/
theorem settle_working {b : Broker TaskMessage TaskExec} {n : Nat} {d : TaskMessage × TaskExec}
    (here : b.deliveries[n]? = some d) {exec : TaskExec} (working : exec.ending = none) :
    (settle b n d.1 exec).deliveries.Perm ((d.1, exec) :: b.deliveries.eraseIdx n) := by
  obtain ⟨inside, -⟩ := List.getElem?_eq_some_iff.mp here
  unfold settle
  rw [working]
  exact List.set_perm_cons_eraseIdx inside _

theorem settle_ended {exec : TaskExec} {how : TaskEnd} (ended : exec.ending = some how)
    (b : Broker TaskMessage TaskExec) (n : Nat) (message : TaskMessage) :
    (settle b n message exec).deliveries = b.deliveries.eraseIdx n := by
  unfold settle
  rw [ended]
  cases how with
  | returned => rfl
  | raised =>
    simp only
    split <;> rfl

variable [DecidableEq ι] [Platform] {s t : JobSystem ι}

/-- What a step does to the jobs, the analyses and the executions. -/
inductive JobEffect (jobId : ι → Str) (requestHash : List LogIngestRequest → Str)
    (requests : ι → JobRequest) (s : JobSystem ι) : JobOp ι → JobSystem ι → Prop
  | keeps {op : JobOp ι} {t : JobSystem ι} (started : List (TaskMessage × TaskExec)) :
    (∀ n event, op ≠ .work n event) → t.calls.jobs = s.calls.jobs → t.analyses = s.analyses →
    (∀ e ∈ started, e.2 = e.1.task.start) →
    t.broker.deliveries.Sublist (s.broker.deliveries ++ started) →
    JobEffect jobId requestHash requests s op t
  | creates {i : ι} {calls : JobCalls ι} :
    calls.jobs = s.calls.jobs ++ [callRow jobId (jobArgs requestHash requests) i] →
    JobEffect jobId requestHash requests s (.request i) { s with calls := calls }
  | works {n : Nat} {event : TaskEvent} {d : TaskMessage × TaskExec} {row : BackgroundJob}
    {outcome : TaskOutcome} {calls : JobCalls ι} : s.broker.deliveries[n]? = some d →
    row ∈ s.calls.jobs → row.id = d.1.jobId → s.outcome d.2 event row = some outcome →
    TaskSpec d.2 event row outcome → calls.jobs = s.calls.jobs.map (writeRow outcome.row) →
    JobEffect jobId requestHash requests s (.work n event)
      ⟨calls, s.dispatched, settle s.broker n d.1 outcome.exec, outcome.logs, outcome.analyses⟩

theorem job_effect (holds : JobInvariant jobId requestHash requests s) {op : JobOp ι}
    (moved : (jobMachine jobId requestHash requests).step s op = some t) :
    JobEffect jobId requestHash requests s op t := by
  have kept : ∀ {op : JobOp ι} {t : JobSystem ι}, (∀ n event, op ≠ .work n event) →
      t.calls.jobs = s.calls.jobs → t.analyses = s.analyses →
      t.broker.deliveries.Sublist s.broker.deliveries →
      JobEffect jobId requestHash requests s op t := fun idle jobs analyses fewer =>
    .keeps [] idle jobs analyses (by simp) (by simpa using fewer)
  cases op with
  | request i =>
    change (if _ then _ else _) = _ at moved
    split at moved
    · obtain ⟨calls, called, rfl⟩ := Option.map_eq_some_iff.mp moved
      cases call_jobs (call_effect called) with
      | inl same => exact kept (by simp) same rfl (.refl _)
      | inr added => exact .creates added
    · cases moved
  | dispatch i =>
    obtain ⟨job, found, rfl⟩ := Option.map_eq_some_iff.mp moved
    exact kept (by simp) rfl rfl (.refl _)
  | dispatchRaises i =>
    obtain ⟨job, found, rfl⟩ := Option.map_eq_some_iff.mp moved
    exact kept (by simp) rfl rfl (.refl _)
  | deliver m =>
    obtain ⟨broker, delivered, rfl⟩ := Option.map_eq_some_iff.mp moved
    refine .keeps [(m, m.task.start)] (by simp) rfl rfl (by simp) ?_
    rw [deliveries_deliver delivered]
  | work n event =>
    obtain ⟨d, row, outcome, here, hr, sameId, stepped, ⟨calls, wrote, rfl⟩, spec⟩ :=
      holds.work_cases moved
    exact .works here hr sameId stepped spec (congrArg JobCalls.jobs (write_rows wrote).1)
  | redeliver n =>
    obtain ⟨broker, redelivered, rfl⟩ := Option.map_eq_some_iff.mp moved
    refine kept (by simp) rfl rfl ?_
    rw [deliveries_redeliver redelivered]
  | lose n =>
    obtain ⟨broker, lost, rfl⟩ := Option.map_eq_some_iff.mp moved
    refine kept (by simp) rfl rfl ?_
    rw [deliveries_lose lost]
    exact List.eraseIdx_sublist _ _
  | due m =>
    obtain ⟨broker, came, rfl⟩ := Option.map_eq_some_iff.mp moved
    refine kept (by simp) rfl rfl ?_
    rw [deliveries_due came]
  | logs tables =>
    cases moved
    exact kept (by simp) rfl rfl (.refl _)

end Invariant

end LogLens
