import LogLens.Platform
import Mathlib.Data.Rat.Defs

/-! Enumerations, validated requests and table rows. A request type carries the
limits of its pydantic schema, so a request that the schema rejects cannot be
built. Columns no modelled function reads (`updated_at`, and `created_at` of
jobs, analyses and tokens) are left out. -/

namespace LogLens

inductive LogEnvironment
  | development | staging | production
  deriving DecidableEq

inductive LogLevel
  | debug | info | warning | error | critical
  deriving DecidableEq

inductive ErrorGroupStatus
  | unresolved | investigating | resolved | ignored
  deriving DecidableEq

inductive ErrorGroupSeverity
  | low | medium | high | critical
  deriving DecidableEq

inductive BackgroundJobStatus
  | pending | running | completed | failed | partiallyCompleted
  deriving DecidableEq

inductive BackgroundJobType
  | bulkLogIngest | errorGroupAnalysis | logCleanup | analyticsRecalculation
  deriving DecidableEq

inductive ErrorAnalysisStatus
  | pending | completed | failed
  deriving DecidableEq

inductive AnalysisPriority
  | low | medium | high | critical
  deriving DecidableEq

inductive UserRole
  | admin | developer
  deriving DecidableEq

/-- The statuses of `get_active_by_scope` and of `ux_background_jobs_active_scope`. -/
def BackgroundJobStatus.active : BackgroundJobStatus → Bool
  | .pending | .running => true
  | .completed | .failed | .partiallyCompleted => false

structure LogIngestRequest where
  serviceName : Str
  environment : LogEnvironment
  logLevel : LogLevel
  message : Str
  exceptionType : Option Str
  stackTrace : Option Str
  metadata : Json Text
  timestamp : Datetime
  serviceName_length : 1 ≤ serviceName.length ∧ serviceName.length ≤ 128 := by decide
  message_length : 1 ≤ message.length ∧ message.length ≤ 10000 := by decide
  exceptionType_length : ∀ t ∈ exceptionType, t.length ≤ 255 := by decide
  stackTrace_length : ∀ t ∈ stackTrace, t.length ≤ 100000 := by decide
  deriving DecidableEq

/-- A request of one-letter texts. -/
def minimalRequest (level : LogLevel) (timestamp : Datetime) : LogIngestRequest where
  serviceName := ['s']
  environment := .production
  logLevel := level
  message := ['m']
  exceptionType := none
  stackTrace := none
  metadata := .obj []
  timestamp := timestamp

structure BulkLogIngestRequest where
  idempotencyKey : Option Str
  logs : List LogIngestRequest
  idempotencyKey_length : ∀ k ∈ idempotencyKey, 8 ≤ k.length ∧ k.length ≤ 128 := by decide
  logs_length : 1 ≤ logs.length := by decide

structure Log where
  id : Nat
  serviceName : Str
  environment : LogEnvironment
  logLevel : LogLevel
  message : Str
  normalizedMessage : Str
  exceptionType : Option Str
  stackTrace : Option Str
  metadata : Json Text
  fingerprint : Option Str
  errorGroupId : Option Nat
  timestamp : Timestamp
  createdAt : Timestamp
  deriving DecidableEq

structure ErrorGroup where
  id : Nat
  fingerprint : Str
  title : Str
  serviceName : Str
  environment : LogEnvironment
  exceptionType : Option Str
  firstSeen : Timestamp
  lastSeen : Timestamp
  occurrenceCount : Nat
  status : ErrorGroupStatus
  severity : ErrorGroupSeverity
  assignedTo : Option Nat
  createdAt : Timestamp
  deriving DecidableEq

structure BulkLogItemFailure where
  index : Nat
  error : Str
  deriving DecidableEq

/-- The JSON object in `background_jobs.payload`, by the keys the code uses. -/
structure JobPayload where
  requestHash : Option Str := none
  logs : Option (List LogIngestRequest) := none
  failures : Option (List BulkLogItemFailure) := none
  groupId : Option Nat := none
  requestedBy : Option Nat := none
  deriving DecidableEq

structure BackgroundJob where
  id : Str
  jobType : BackgroundJobType
  status : BackgroundJobStatus
  payload : JobPayload
  totalItems : Nat
  processedItems : Nat
  successCount : Nat
  failureCount : Nat
  idempotencyKey : Option Str
  scopeKey : Option Str
  celeryTaskId : Option Str
  errorSummary : Option Str
  createdBy : Option Nat
  startedAt : Option Timestamp
  completedAt : Option Timestamp
  deriving DecidableEq

/-- A result of the provider that validates as `AIAnalysisResult`. -/
structure AIAnalysisResult where
  summary : Str
  likelyRootCause : Str
  suggestedFix : Str
  confidence : ℚ
  affectedComponent : Str
  recommendedPriority : AnalysisPriority
  reasoningSummary : Str
  generatedAt : Datetime
  provider : Str
  model : Str
  latencyMs : Nat
  summary_length : 1 ≤ summary.length ∧ summary.length ≤ 4000 := by decide
  likelyRootCause_length :
    1 ≤ likelyRootCause.length ∧ likelyRootCause.length ≤ 4000 := by decide
  suggestedFix_length : 1 ≤ suggestedFix.length ∧ suggestedFix.length ≤ 4000 := by decide
  confidence_range : 0 ≤ confidence ∧ confidence ≤ 1 := by decide
  affectedComponent_length :
    1 ≤ affectedComponent.length ∧ affectedComponent.length ≤ 255 := by decide
  reasoningSummary_length :
    1 ≤ reasoningSummary.length ∧ reasoningSummary.length ≤ 4000 := by decide
  provider_length : 1 ≤ provider.length ∧ provider.length ≤ 64 := by decide
  model_length : 1 ≤ model.length ∧ model.length ≤ 128 := by decide
  deriving DecidableEq

structure ErrorAnalysis where
  id : Nat
  errorGroupId : Nat
  status : ErrorAnalysisStatus
  summary : Option Str := none
  likelyRootCause : Option Str := none
  suggestedFix : Option Str := none
  confidence : Option ℚ := none
  affectedComponent : Option Str := none
  recommendedPriority : Option AnalysisPriority := none
  reasoningSummary : Option Str := none
  provider : Option Str := none
  model : Option Str := none
  latencyMs : Option Nat := none
  /-- `generated_at` and `log_count` of `raw_response_metadata` -/
  rawResponseMetadata : Option (Datetime × Nat) := none
  createdBy : Nat
  completedAt : Option Timestamp := none
  createdAt : Timestamp
  deriving DecidableEq

structure User where
  id : Nat
  email : Str
  passwordHash : Str
  role : UserRole := .developer
  isActive : Bool := true
  deriving DecidableEq

/-- An ORM flush of one column writes it only when its new value differs from
the value loaded; otherwise the committed value stands. -/
def flushColumn {α : Type*} [DecidableEq α] (loaded new committed : α) : α :=
  if new = loaded then committed else new

theorem flushColumn_changed {α : Type*} [DecidableEq α] {loaded new : α} (changed : new ≠ loaded)
    (committed : α) : flushColumn loaded new committed = new := if_neg changed

@[simp] theorem flushColumn_unchanged {α : Type*} [DecidableEq α] (loaded committed : α) :
    flushColumn loaded loaded committed = committed := if_pos rfl

@[simp] theorem flushColumn_fresh {α : Type*} [DecidableEq α] (loaded new : α) :
    flushColumn loaded new loaded = new := by
  unfold flushColumn
  split
  · rename_i unchanged
    exact unchanged.symm
  · rfl

end LogLens
