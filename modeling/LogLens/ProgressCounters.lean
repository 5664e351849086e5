import LogLens.CrashRetry

/-! The counters of a bulk job agree with each other and with the failures in its
payload after every commit, also when an execution starts over a row that holds
the counters of one that was cut off. -/

namespace LogLens
open LabelledMachine

/-- Failures of items below `processed`, in the order of the items. -/
structure FailuresUpTo (failures : List BulkLogItemFailure) (processed : Nat) : Prop where
  increasing : (failures.map BulkLogItemFailure.index).Pairwise (· < ·)
  below : ∀ f ∈ failures, f.index < processed

/-- `payload["failures"]`, empty when absent -/
def BackgroundJob.failures (job : BackgroundJob) : List BulkLogItemFailure :=
  job.payload.failures.getD []

structure CountersAgree (job : BackgroundJob) : Prop where
  processed : job.successCount + job.failureCount = job.processedItems
  total : job.processedItems ≤ job.totalItems
  counted : job.failures.length = job.failureCount
  listed : FailuresUpTo job.failures job.processedItems

/-- A bulk job as its request creates it, with no execution yet. -/
def bulkRun (requestHash : List LogIngestRequest → Str) (request : BulkLogIngestRequest)
    (currentUser : Nat) (jobId : Str) (tables : LogTables) : CrashRun where
  job := newJob jobId (bulkJobArgs requestHash request currentUser)
  tables := tables

/-- The local variables of the loop count what it has done so far. -/
structure LoopAgrees (totalItems : Nat) (logs : List LogIngestRequest)
    (index successCount : Nat) (failures : List BulkLogItemFailure) : Prop where
  total : logs.length = totalItems
  inside : index ≤ logs.length
  counted : successCount + failures.length = index
  listed : FailuresUpTo failures index

structure ProgressInvariant (s : CrashRun) : Prop where
  copy : ∀ exec, s.exec = some exec → exec.holds s.job
  payload : ∀ logs, s.job.payload.logs = some logs → logs.length = s.job.totalItems
  loop : ∀ job logs index successCount failures,
    s.exec = some (.items job logs index successCount failures) →
      LoopAgrees s.job.totalItems logs index successCount failures
  agree : CountersAgree s.job

theorem failuresUpTo_nil (processed : Nat) : FailuresUpTo [] processed :=
  ⟨List.Pairwise.nil, by simp⟩

theorem FailuresUpTo.mono {failures : List BulkLogItemFailure} {processed more : Nat}
    (listed : FailuresUpTo failures processed) (bound : processed ≤ more) :
    FailuresUpTo failures more :=
  ⟨listed.increasing, fun f hf => (listed.below f hf).trans_le bound⟩

theorem FailuresUpTo.append {failures : List BulkLogItemFailure} {index : Nat}
    (listed : FailuresUpTo failures index) (error : Raised) :
    FailuresUpTo (failures ++ [itemFailure index error]) (index + 1) := by
  constructor
  · rw [List.map_append, List.pairwise_append]
    refine ⟨listed.increasing, by simp, fun earlier he later hl => ?_⟩
    have last : later = index := by simpa [itemFailure] using hl
    have before : ∃ f ∈ failures, f.index = earlier := by simpa using he
    obtain ⟨f, hf, rfl⟩ := before
    rw [last]
    exact listed.below f hf
  · intro f hf
    have cases : f ∈ failures ∨ f = itemFailure index error := by simpa using hf
    cases cases with
    | inl old =>
      have below := listed.below f old
      omega
    | inr new =>
      rw [new]
      exact Nat.lt_succ_self index

/-- One more item that is persisted. -/
theorem LoopAgrees.persisted {totalItems index successCount : Nat} {logs : List LogIngestRequest}
    {failures : List BulkLogItemFailure} {item : LogIngestRequest}
    (agrees : LoopAgrees totalItems logs index successCount failures)
    (here : logs[index]? = some item) :
    LoopAgrees totalItems logs (index + 1) (successCount + 1) failures where
  total := agrees.total
  inside := (List.getElem?_eq_some_iff.mp here).1
  counted := by
    have counted := agrees.counted
    omega
  listed := agrees.listed.mono (Nat.le_succ index)

/-- One more item that fails. -/
theorem LoopAgrees.failed {totalItems index successCount : Nat} {logs : List LogIngestRequest}
    {failures : List BulkLogItemFailure} {item : LogIngestRequest}
    (agrees : LoopAgrees totalItems logs index successCount failures)
    (here : logs[index]? = some item) (error : Raised) :
    LoopAgrees totalItems logs (index + 1) successCount
      (failures ++ [itemFailure index error]) where
  total := agrees.total
  inside := (List.getElem?_eq_some_iff.mp here).1
  counted := by
    have counted := agrees.counted
    rw [List.length_append, List.length_singleton]
    omega
  listed := agrees.listed.append error

/-- The row after `update_progress` counts what the loop counted. -/
theorem LoopAgrees.row {index successCount : Nat} {logs : List LogIngestRequest}
    {failures : List BulkLogItemFailure} {job : BackgroundJob}
    (agrees : LoopAgrees job.totalItems logs (index + 1) successCount failures) :
    CountersAgree (itemProgress index successCount failures job) where
  processed := agrees.counted
  total := agrees.total ▸ agrees.inside
  counted := rfl
  listed := agrees.listed

theorem progressInvariant_initial (requestHash : List LogIngestRequest → Str)
    (request : BulkLogIngestRequest) (currentUser : Nat) (jobId : Str) (tables : LogTables) :
    ProgressInvariant (bulkRun requestHash request currentUser jobId tables) where
  copy := by rintro _ ⟨⟩
  payload := by
    intro logs payload
    have same : request.logs = logs := by simpa [bulkRun, newJob, bulkJobArgs] using payload
    rw [← same]
    rfl
  loop := by rintro _ _ _ _ _ ⟨⟩
  agree := ⟨rfl, Nat.zero_le _, rfl, failuresUpTo_nil 0⟩

section Runs
variable [Platform]

theorem ProgressInvariant.effect {s : CrashRun} (holds : ProgressInvariant s) {exec : BulkExec}
    (running : s.exec = some exec) {outcome : BulkOutcome}
    (effect : BulkEffect s.job s.tables exec outcome) :
    ProgressInvariant ⟨outcome.row, outcome.tables, some outcome.exec,
      outcome.persisted.toList ++ s.persisted⟩ := by
  have copy : ∀ exec', some outcome.exec = some exec' → exec'.holds outcome.row := by
    rintro _ ⟨⟩
    exact effect.holds
  cases effect with
  | loads | skips | breaks => exact ⟨copy, holds.payload, by rintro _ _ _ _ _ ⟨⟩, holds.agree⟩
  | enters now celeryTaskId =>
    refine ⟨copy, holds.payload, ?_, ?_⟩
    · intro job logs index successCount failures entered
      unfold enterLoop at entered
      split at entered
      · rename_i item rest stored
        cases entered
        have total := holds.payload (item :: rest) stored
        exact ⟨total, Nat.zero_le _, rfl, failuresUpTo_nil 0⟩
      · cases entered
    · exact ⟨holds.agree.processed, holds.agree.total, holds.agree.counted, holds.agree.listed⟩
  | persists here persists =>
    have next := (holds.loop _ _ _ _ _ running).persisted here
    refine ⟨copy, holds.payload, ?_, next.row⟩
    rintro _ _ _ _ _ ⟨⟩
    exact next
  | @fails _ _ _ _ _ _ _ error _ here rolled =>
    have next := (holds.loop _ _ _ _ _ running).failed here error
    refine ⟨copy, holds.payload, ?_, next.row⟩
    rintro _ _ _ _ _ ⟨⟩
    exact next
  | completes =>
    refine ⟨copy, holds.payload, by rintro _ _ _ _ _ ⟨⟩, ?_⟩
    exact ⟨holds.agree.processed, holds.agree.total, holds.agree.counted, holds.agree.listed⟩

theorem ProgressInvariant.next {s t : CrashRun} {op : CrashOp} (holds : ProgressInvariant s)
    (moved : crashMachine.step s op = some t) : ProgressInvariant t := by
  have effect := crash_effect holds.copy moved
  have copy := effect.holds
  cases effect with
  | delivers | cutsOff => exact ⟨copy, holds.payload, by rintro _ _ _ _ _ ⟨⟩, holds.agree⟩
  | steps running _ effect => exact holds.effect running effect

/-- The counters agree in every committed state of every run of a bulk job. -/
theorem progress_counters (requestHash : List LogIngestRequest → Str)
    (request : BulkLogIngestRequest) (currentUser : Nat) (jobId : Str) (tables : LogTables)
    (ops : List CrashOp) (s : CrashRun)
    (ran : crashMachine.run (bulkRun requestHash request currentUser jobId tables) ops = some s) :
    CountersAgree s.job := by
  have start := progressInvariant_initial requestHash request currentUser jobId tables
  exact (run_invariant (fun _ _ _ holds moved => holds.next moved) start ran).agree

end Runs

/-- A batch of two items at level `info`. -/
def pairRequest : BulkLogIngestRequest where
  idempotencyKey := none
  logs := List.replicate 2 (minimalRequest .info { clock := 0, utcoffset := none })

theorem progress_counters_retried :
    letI := asciiPlatform
    ∃ s, crashMachine.run (bulkRun (fun _ => []) pairRequest 1 ['j'] {}) failedItemThenRetry =
      some s ∧ s.job.processedItems = 2 ∧ CountersAgree s.job := by
  let _ := asciiPlatform
  obtain ⟨s, ran⟩ : ∃ s, crashMachine.run (bulkRun (fun _ => []) pairRequest 1 ['j'] {})
      failedItemThenRetry = some s :=
    Option.isSome_iff_exists.mp (by decide)
  have counts : (crashMachine.run (bulkRun (fun _ => []) pairRequest 1 ['j'] {})
      failedItemThenRetry).map (fun s => s.job.processedItems) = some 2 := by decide
  rw [ran, Option.map_some, Option.some.injEq] at counts
  exact ⟨s, ran, counts, progress_counters _ pairRequest 1 ['j'] {} failedItemThenRetry s ran⟩

end LogLens
