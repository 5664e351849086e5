import LogLens.Parameters

/-! `BackgroundJobRepository` and `JobService`. A session holds a copy of the row
it works on; a mutator changes the copy, and its flush writes the columns whose
value differs from the one last read. -/

namespace LogLens

structure CreateJobArgs where
  jobType : BackgroundJobType
  payload : JobPayload
  totalItems : Nat
  createdBy : Option Nat
  idempotencyKey : Option Str
  scopeKey : Option Str
  deriving DecidableEq

/-- The texts of a log in a `jsonb` value. -/
def LogIngestRequest.JsonStorable (item : LogIngestRequest) : Prop :=
  NulFree item.serviceName ∧ NulFree item.message ∧ (∀ t ∈ item.exceptionType, NulFree t) ∧
    (∀ t ∈ item.stackTrace, NulFree t) ∧ item.metadata.storable = true

def JobPayload.Storable (payload : JobPayload) : Prop :=
  (∀ hash ∈ payload.requestHash, NulFree hash) ∧
    (∀ logs ∈ payload.logs, ∀ item ∈ logs, item.JsonStorable) ∧
    ∀ failures ∈ payload.failures, ∀ failure ∈ failures, NulFree failure.error

/-- The columns of `background_jobs` take the values of the INSERT. -/
def CreateJobArgs.Storable (args : CreateJobArgs) : Prop :=
  args.payload.Storable ∧ FitsBits 31 args.totalItems ∧
    (∀ user ∈ args.createdBy, FitsBits 31 user) ∧
    (∀ key ∈ args.idempotencyKey, FitsVarchar 128 key) ∧
    ∀ scope ∈ args.scopeKey, FitsVarchar 255 scope

instance (item : LogIngestRequest) : Decidable item.JsonStorable := by
  unfold LogIngestRequest.JsonStorable; infer_instance

instance JobPayload.decidableStorable (payload : JobPayload) : Decidable payload.Storable := by
  unfold JobPayload.Storable; infer_instance

instance CreateJobArgs.decidableStorable (args : CreateJobArgs) : Decidable args.Storable := by
  unfold CreateJobArgs.Storable; infer_instance

/-- The call of `create_job` in `enqueue_bulk_ingestion_job`, of logs as `model_dump` leaves
them. The hash is taken of their JSON. -/
def bulkJobArgs (requestHash : List LogIngestRequest → Str) (payload : BulkLogIngestRequest)
    (currentUser : Nat) : CreateJobArgs where
  jobType := .bulkLogIngest
  payload := { requestHash := some (requestHash payload.logs), logs := some payload.logs }
  totalItems := payload.logs.length
  createdBy := some currentUser
  idempotencyKey := payload.idempotencyKey
  scopeKey := none

/-- The call of `create_job` in `create_analysis_job`. -/
def analysisJobArgs (groupId currentUser : Nat) : CreateJobArgs where
  jobType := .errorGroupAnalysis
  payload := { groupId := some groupId, requestedBy := some currentUser }
  totalItems := 1
  createdBy := some currentUser
  idempotencyKey := none
  scopeKey := some ("error-group:".toList ++ strOfId groupId ++ ":analysis".toList)

theorem analysisScope_nulFree (groupId : Nat) :
    NulFree ("error-group:".toList ++ strOfId groupId ++ ":analysis".toList) := by
  have digits : '\x00' ∉ strOfId groupId := fun nul =>
    absurd (Nat.isDigit_of_mem_toDigits (by decide) (by decide) nul) (by decide)
  rw [NulFree, List.mem_append, List.mem_append]
  rintro ((here | here) | here)
  · exact absurd here (by decide)
  · exact digits here
  · exact absurd here (by decide)

/-- The row `BackgroundJobRepository.create_job` inserts. -/
def newJob (jobId : Str) (args : CreateJobArgs) : BackgroundJob where
  id := jobId
  jobType := args.jobType
  status := .pending
  payload := args.payload
  totalItems := args.totalItems
  processedItems := 0
  successCount := 0
  failureCount := 0
  idempotencyKey := args.idempotencyKey
  scopeKey := args.scopeKey
  celeryTaskId := none
  errorSummary := none
  createdBy := args.createdBy
  startedAt := none
  completedAt := none

/-- The columns of `ux_background_jobs_type_idempotency`. -/
def BackgroundJob.hasKey (jobType : BackgroundJobType) (key : Str) (job : BackgroundJob) : Bool :=
  job.jobType = jobType && job.idempotencyKey = some key

/-- The columns and the predicate of `ux_background_jobs_active_scope`. -/
def BackgroundJob.activeIn (jobType : BackgroundJobType) (scope : Str) (job : BackgroundJob) :
    Bool :=
  job.jobType = jobType && job.scopeKey = some scope && job.status.active

def getByJobTypeAndIdempotencyKey (jobs : List BackgroundJob) (jobType : BackgroundJobType)
    (key : Str) : Option BackgroundJob :=
  jobs.find? (BackgroundJob.hasKey jobType key)

def getActiveByScope (jobs : List BackgroundJob) (jobType : BackgroundJobType) (scope : Str) :
    Option BackgroundJob :=
  jobs.find? (BackgroundJob.activeIn jobType scope)

/-- Two rows one of the two unique indexes or the primary key keeps apart. -/
def BackgroundJob.conflicts (a b : BackgroundJob) : Bool :=
  a.id = b.id || a.idempotencyKey.any (fun key => b.hasKey a.jobType key) ||
    (a.status.active && a.scopeKey.any fun scope => b.activeIn a.jobType scope)

def keyConflict : AppError :=
  conflictError "Idempotency key was already used for a different request."

def scopeConflict : AppError := conflictError "A job is already running for this resource."

/-- `create_job` once the first lookup found the row of the key. -/
def replayJob (args : CreateJobArgs) (existing : BackgroundJob) : Except Raised BackgroundJob :=
  match existing.payload.requestHash, args.payload.requestHash with
  | some existingHash, some incomingHash =>
    if existingHash ≠ incomingHash then .error (.app keyConflict) else .ok existing
  | _, _ => .ok existing

/-- The first lookup: the row of the key, if there is one, answers the call. -/
def lookupKey (args : CreateJobArgs) (jobs : List BackgroundJob) :
    Option (Except Raised BackgroundJob) :=
  args.idempotencyKey.bind fun key =>
    if NulFree key then (getByJobTypeAndIdempotencyKey jobs args.jobType key).map (replayJob args)
    else some (.error dbapiError)

/-- The second lookup: an active job of the scope refuses the call. -/
def lookupScope (args : CreateJobArgs) (jobs : List BackgroundJob) :
    Option (Except Raised BackgroundJob) :=
  args.scopeKey.bind fun scope =>
    if NulFree scope then
      (getActiveByScope jobs args.jobType scope).map fun _ => .error (.app scopeConflict)
    else some (.error dbapiError)

/-- `JobService.create_job` of a call that runs alone. -/
def createJob (jobId : Str) (args : CreateJobArgs) (jobs : List BackgroundJob) :
    Except Raised BackgroundJob × List BackgroundJob :=
  match lookupKey args jobs with
  | some answer => (answer, jobs)
  | none =>
    match lookupScope args jobs with
    | some answer => (answer, jobs)
    | none =>
      let job := newJob jobId args
      if ¬ args.Storable then (.error dbapiError, jobs)
      else if jobs.any job.conflicts then (.error integrityError, jobs)
      else (.ok job, jobs ++ [job])

/-- The statuses in which neither task runs a job again. -/
def skipsExecution (status : BackgroundJobStatus) : Bool :=
  status = .completed || status = .partiallyCompleted

theorem inactive_of_skips {status : BackgroundJobStatus} (skips : skipsExecution status = true) :
    status.active = false := by
  cases status <;> first | rfl | cases skips

def finalStatus (successCount failureCount : Nat) : BackgroundJobStatus :=
  if failureCount = 0 then .completed
  else if successCount = 0 then .failed
  else .partiallyCompleted

section Lookups

theorem hasKey_iff {jobType : BackgroundJobType} {key : Str} {job : BackgroundJob} :
    job.hasKey jobType key = true ↔ job.jobType = jobType ∧ job.idempotencyKey = some key := by
  simp [BackgroundJob.hasKey]

theorem activeIn_iff {jobType : BackgroundJobType} {scope : Str} {job : BackgroundJob} :
    job.activeIn jobType scope = true ↔
      job.jobType = jobType ∧ job.scopeKey = some scope ∧ job.status.active = true := by
  simp [BackgroundJob.activeIn, and_assoc]

theorem conflicts_iff {a b : BackgroundJob} : a.conflicts b = true ↔
    a.id = b.id ∨ (∃ key, a.idempotencyKey = some key ∧ b.hasKey a.jobType key = true) ∨
      ∃ scope, a.activeIn a.jobType scope = true ∧ b.activeIn a.jobType scope = true := by
  simp only [BackgroundJob.conflicts, Bool.or_eq_true, decide_eq_true_eq, Option.any_eq_true,
    Bool.and_eq_true, activeIn_iff, or_assoc, true_and]
  refine or_congr_right (or_congr_right ?_)
  constructor
  · rintro ⟨active, scope, own, other⟩
    exact ⟨scope, ⟨own, active⟩, other⟩
  · rintro ⟨scope, ⟨own, active⟩, other⟩
    exact ⟨active, scope, own, other⟩

theorem conflicts_symm {a b : BackgroundJob} (h : a.conflicts b = true) : b.conflicts a = true := by
  rw [conflicts_iff] at h ⊢
  simp only [hasKey_iff, activeIn_iff] at h ⊢
  obtain sameId | ⟨key, own, type, other⟩ | ⟨scope, ⟨-, own, active⟩, type, other, active'⟩ := h
  · exact .inl sameId.symm
  · exact .inr (.inl ⟨key, other, type.symm, own⟩)
  · exact .inr (.inr ⟨scope, ⟨trivial, other, active'⟩, type.symm, own, active⟩)

/-- A lookup answers with what it finds, or fails for a text that the database refuses. -/
theorem lookupKey_some {args : CreateJobArgs} {jobs : List BackgroundJob}
    {answer : Except Raised BackgroundJob} (h : lookupKey args jobs = some answer) :
    ∃ key, args.idempotencyKey = some key ∧
      ((NulFree key ∧ ∃ existing ∈ jobs, existing.hasKey args.jobType key = true ∧
        answer = replayJob args existing) ∨ ¬ NulFree key ∧ answer = .error dbapiError) := by
  obtain ⟨key, own, h⟩ := Option.bind_eq_some_iff.mp h
  refine ⟨key, own, ?_⟩
  split at h
  · obtain ⟨existing, found, rfl⟩ := Option.map_eq_some_iff.mp h
    exact .inl ⟨‹_›, existing, List.mem_of_find?_eq_some found, List.find?_some found, rfl⟩
  · exact .inr ⟨‹_›, (Option.some.inj h).symm⟩

theorem lookupScope_some {args : CreateJobArgs} {jobs : List BackgroundJob}
    {answer : Except Raised BackgroundJob} (h : lookupScope args jobs = some answer) :
    ∃ scope, args.scopeKey = some scope ∧
      ((NulFree scope ∧ ∃ existing ∈ jobs, existing.activeIn args.jobType scope = true ∧
        answer = .error (.app scopeConflict)) ∨ ¬ NulFree scope ∧ answer = .error dbapiError) := by
  obtain ⟨scope, own, h⟩ := Option.bind_eq_some_iff.mp h
  refine ⟨scope, own, ?_⟩
  split at h
  · obtain ⟨existing, found, rfl⟩ := Option.map_eq_some_iff.mp h
    exact .inl ⟨‹_›, existing, List.mem_of_find?_eq_some found, List.find?_some found, rfl⟩
  · exact .inr ⟨‹_›, (Option.some.inj h).symm⟩

theorem lookupKey_none {args : CreateJobArgs} {jobs : List BackgroundJob}
    (h : lookupKey args jobs = none) : ∀ key ∈ args.idempotencyKey, NulFree key := by
  intro key own
  by_contra refused
  have answered := Option.bind_eq_none_iff.mp h key own
  rw [if_neg refused] at answered
  cases answered

theorem lookupScope_none {args : CreateJobArgs} {jobs : List BackgroundJob}
    (h : lookupScope args jobs = none) : ∀ scope ∈ args.scopeKey, NulFree scope := by
  intro scope own
  by_contra refused
  have answered := Option.bind_eq_none_iff.mp h scope own
  rw [if_neg refused] at answered
  cases answered

theorem replayJob_cases (args : CreateJobArgs) (existing : BackgroundJob) :
    (replayJob args existing = .ok existing ∧
      ∀ old new, existing.payload.requestHash = some old → args.payload.requestHash = some new →
        old = new) ∨
    (replayJob args existing = .error (.app keyConflict) ∧
      existing.payload.requestHash ≠ args.payload.requestHash) := by
  unfold replayJob
  cases existing.payload.requestHash with
  | none => exact .inl ⟨rfl, by rintro _ _ ⟨⟩⟩
  | some old =>
    cases args.payload.requestHash with
    | none => exact .inl ⟨rfl, by rintro _ _ _ ⟨⟩⟩
    | some new =>
      by_cases same : old = new
      · refine .inl ⟨by simp [same], ?_⟩
        rintro _ _ ⟨⟩ ⟨⟩
        exact same
      · exact .inr ⟨by simp [same], by simpa using same⟩

end Lookups

section Mutators

def markRunning (now : Timestamp) (celeryTaskId : Option Str) (job : BackgroundJob) :
    BackgroundJob :=
  { job with
    startedAt := if job.startedAt = none then some now else job.startedAt
    status := .running
    celeryTaskId := celeryTaskId }

def updateProgress (processedItems successCount failureCount : Nat) (payload : Option JobPayload)
    (errorSummary : Option Str) (job : BackgroundJob) : BackgroundJob :=
  { job with
    processedItems := processedItems
    successCount := successCount
    failureCount := failureCount
    payload := payload.getD job.payload
    errorSummary := if errorSummary = none then job.errorSummary else errorSummary }

def markCompleted (now : Timestamp) (status : BackgroundJobStatus) (errorSummary : Option Str)
    (job : BackgroundJob) : BackgroundJob :=
  { job with status := status, completedAt := some now, errorSummary := errorSummary }

def markFailed (now : Timestamp) (errorSummary : Str) (job : BackgroundJob) : BackgroundJob :=
  { job with status := .failed, errorSummary := some errorSummary, completedAt := some now }

/-- The row after a flush: `loaded` is the copy as last read, `new` as changed. -/
def flushJob (loaded new row : BackgroundJob) : BackgroundJob :=
  { row with
    status := flushColumn loaded.status new.status row.status
    payload := flushColumn loaded.payload new.payload row.payload
    processedItems := flushColumn loaded.processedItems new.processedItems row.processedItems
    successCount := flushColumn loaded.successCount new.successCount row.successCount
    failureCount := flushColumn loaded.failureCount new.failureCount row.failureCount
    celeryTaskId := flushColumn loaded.celeryTaskId new.celeryTaskId row.celeryTaskId
    errorSummary := flushColumn loaded.errorSummary new.errorSummary row.errorSummary
    startedAt := flushColumn loaded.startedAt new.startedAt row.startedAt
    completedAt := flushColumn loaded.completedAt new.completedAt row.completedAt }

/-- A copy that is still the row is written as changed. -/
theorem flushJob_fresh {row new : BackgroundJob} (id : new.id = row.id)
    (jobType : new.jobType = row.jobType) (totalItems : new.totalItems = row.totalItems)
    (idempotencyKey : new.idempotencyKey = row.idempotencyKey)
    (scopeKey : new.scopeKey = row.scopeKey) (createdBy : new.createdBy = row.createdBy) :
    flushJob row new row = new := by
  obtain ⟨_, _, _, _, _, _, _, _, _, _, _, _, _, _, _⟩ := new
  simp only at id jobType totalItems idempotencyKey scopeKey createdBy
  subst id jobType totalItems idempotencyKey scopeKey createdBy
  simp only [flushJob, flushColumn_fresh]

@[simp] theorem flushJob_markRunning (now : Timestamp) (celeryTaskId : Option Str)
    (row : BackgroundJob) :
    flushJob row (markRunning now celeryTaskId row) row = markRunning now celeryTaskId row :=
  flushJob_fresh rfl rfl rfl rfl rfl rfl

@[simp] theorem flushJob_updateProgress (processedItems successCount failureCount : Nat)
    (payload : Option JobPayload) (errorSummary : Option Str) (row : BackgroundJob) :
    flushJob row (updateProgress processedItems successCount failureCount payload errorSummary row)
      row = updateProgress processedItems successCount failureCount payload errorSummary row :=
  flushJob_fresh rfl rfl rfl rfl rfl rfl

@[simp] theorem flushJob_markCompleted (now : Timestamp) (status : BackgroundJobStatus)
    (errorSummary : Option Str) (row : BackgroundJob) :
    flushJob row (markCompleted now status errorSummary row) row =
      markCompleted now status errorSummary row :=
  flushJob_fresh rfl rfl rfl rfl rfl rfl

end Mutators

end LogLens
