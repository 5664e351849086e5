import LogLens.AbandonedJobs

/-! One uninterrupted execution of `run_error_group_analysis_task` on a pending job
records the answer of the provider: exactly if the columns take the result, no flush of
the outcome raises and no analysis of the group is dated later than the new one. -/

namespace LogLens
open LabelledMachine

structure ResultFields where
  summary : Option Str := none
  likelyRootCause : Option Str := none
  suggestedFix : Option Str := none
  confidence : Option ℚ := none
  affectedComponent : Option Str := none
  recommendedPriority : Option AnalysisPriority := none
  reasoningSummary : Option Str := none
  provider : Option Str := none
  model : Option Str := none
  latencyMs : Option Nat := none
  generatedAt : Option Datetime := none
  deriving DecidableEq

def ErrorAnalysis.resultFields (a : ErrorAnalysis) : ResultFields where
  summary := a.summary
  likelyRootCause := a.likelyRootCause
  suggestedFix := a.suggestedFix
  confidence := a.confidence
  affectedComponent := a.affectedComponent
  recommendedPriority := a.recommendedPriority
  reasoningSummary := a.reasoningSummary
  provider := a.provider
  model := a.model
  latencyMs := a.latencyMs
  generatedAt := a.rawResponseMetadata.map (·.1)

def AIAnalysisResult.fields (result : AIAnalysisResult) : ResultFields where
  summary := result.summary
  likelyRootCause := result.likelyRootCause
  suggestedFix := result.suggestedFix
  confidence := numeric3 result.confidence
  affectedComponent := result.affectedComponent
  recommendedPriority := result.recommendedPriority
  reasoningSummary := result.reasoningSummary
  provider := result.provider
  model := result.model
  latencyMs := result.latencyMs
  generatedAt := result.generatedAt

/-- The task returned, and the job and the analysis it created hold the outcome. -/
def OutcomeRecorded (answer : Except Str AIAnalysisResult) (createdId : Nat)
    (s : AnalysisOutcome) : Prop :=
  s.exec = .returned none ∧ ∃ a ∈ s.tables.analyses, a.id = createdId ∧
    ((∃ result, answer = .ok result ∧ s.row.status = .completed ∧
        (s.row.processedItems, s.row.successCount, s.row.failureCount) = (1, 1, 0) ∧
        a.status = .completed ∧ a.resultFields = result.fields) ∨
      (s.row.status = .failed ∧
        (s.row.processedItems, s.row.successCount, s.row.failureCount) = (1, 0, 1) ∧
        a.status = .failed ∧ a.resultFields = {}))

def executionMachine (logs : LogTables) (others uncommitted : List BackgroundJob) :
    Machine AnalysisOutcome AnalysisEvent where
  step s event := analysisStep s.row logs s.tables s.exec event others uncommitted

def uninterrupted (startedAt analyzedAt completedAt : Timestamp) (celeryTaskId : Option Str)
    (answer : Except Str AIAnalysisResult) (flushError : Option Str) : List AnalysisEvent :=
  [.load, .prepare startedAt celeryTaskId none none, .select none,
    .finish analyzedAt completedAt answer flushError none]

def Recordable (t : AnalysisTables) (groupId : Nat) (startedAt : Timestamp)
    (answer : Except Str AIAnalysisResult) (flushError : Option Str) : Prop :=
  flushError = none ∧ (∀ result, answer = .ok result → result.storable = true) ∧
    ∀ a ∈ t.analyses, a.errorGroupId = groupId → a.createdAt ≤ startedAt

section Created
variable {t : AnalysisTables} {groupId createdBy : Nat} {now : Timestamp} {latest : ErrorAnalysis}

/-- The analysis that is found is the new one unless an older one is dated later. -/
theorem latest_created_iff (valid : t.Valid)
    (found : getLatestForGroup groupId
      (t.analyses ++ [pendingAnalysis now groupId createdBy t.nextAnalysisId]) = some latest) :
    latest = pendingAnalysis now groupId createdBy t.nextAnalysisId ↔
      ∀ a ∈ t.analyses, a.errorGroupId = groupId → a.createdAt ≤ now := by
  constructor
  · intro new a ha own
    have bound := (getLatestForGroup_some found).2.2 a (List.mem_append_left _ ha) own
    rw [new, ErrorAnalysis.sortKey, ErrorAnalysis.sortKey, Prod.Lex.toLex_le_toLex] at bound
    cases bound with
    | inl earlier => exact le_of_lt earlier
    | inr same => exact le_of_eq same.1
  · intro dated
    have newest : ∀ b ∈ t.analyses ++ [pendingAnalysis now groupId createdBy t.nextAnalysisId],
        b.errorGroupId = groupId →
          b = pendingAnalysis now groupId createdBy t.nextAnalysisId ∨
          b.sortKey < (pendingAnalysis now groupId createdBy t.nextAnalysisId).sortKey := by
      intro b hb own
      cases List.mem_append.mp hb with
      | inl old => exact .inr (sortKey_pendingAnalysis (dated b old own) (valid.fresh b old) _ _)
      | inr new => exact .inl (List.mem_singleton.mp new)
    have chosen : getLatestForGroup groupId
        (t.analyses ++ [pendingAnalysis now groupId createdBy t.nextAnalysisId]) =
          some (pendingAnalysis now groupId createdBy t.nextAnalysisId) :=
      getLatestForGroup_newest (by simp) rfl newest
    rw [chosen, Option.some.injEq] at found
    exact found.symm

theorem exists_latest (t : AnalysisTables) (now : Timestamp) (groupId createdBy : Nat) :
    ∃ latest, getLatestForGroup groupId
      (t.analyses ++ [pendingAnalysis now groupId createdBy t.nextAnalysisId]) = some latest := by
  rw [getLatestForGroup_eq, ← Option.isSome_iff_exists, Option.isSome_iff_ne_none, ne_eq,
    List.argmax_eq_none]
  simp [pendingAnalysis]

theorem flushAnalysis_complete (now : Timestamp) (result : AIAnalysisResult) (logCount : Nat)
    (a : ErrorAnalysis) :
    flushAnalysis a (completeAnalysis now result logCount a) a =
      completeAnalysis now result logCount a := by
  simp [flushAnalysis, completeAnalysis]

theorem flushAnalysis_fail (a : ErrorAnalysis) :
    flushAnalysis a (failAnalysis a) a = failAnalysis a := by
  simp [flushAnalysis, failAnalysis]

end Created

section Execution
variable {row : BackgroundJob} {logs : LogTables} {t : AnalysisTables}
  {others uncommitted : List BackgroundJob} {groupId createdBy : Nat}

/-- A pending job that is set running claims nothing more from the indexes. -/
theorem conflicts_markRunning (pending : row.status = .pending) (now : Timestamp)
    (celeryTaskId : Option Str) (other : BackgroundJob) :
    (markRunning now celeryTaskId row).conflicts other = row.conflicts other := by
  simp only [BackgroundJob.conflicts, markRunning, pending]
  rfl

theorem execution_run (valid : t.Valid) (pending : row.status = .pending)
    (named : row.payload.groupId = some groupId)
    (requested : row.payload.requestedBy = some createdBy)
    (known : (logs.errorGroups.any fun g => g.id = groupId) = true)
    (apart : ∀ other ∈ others ++ uncommitted, row.conflicts other = false)
    (startedAt analyzedAt completedAt : Timestamp) (celeryTaskId : Option Str)
    (answer : Except Str AIAnalysisResult) (flushError : Option Str) :
    ∃ latest logCount, getLatestForGroup groupId
        (t.analyses ++ [pendingAnalysis startedAt groupId createdBy t.nextAnalysisId]) =
          some latest ∧
      (executionMachine logs others uncommitted).run ⟨.started, row, t⟩
        (uninterrupted startedAt analyzedAt completedAt celeryTaskId answer flushError) =
      some (recordAnalysis (markRunning startedAt celeryTaskId row)
        (createPendingAnalysis startedAt groupId createdBy t).2
        (markRunning startedAt celeryTaskId row) latest logCount analyzedAt completedAt answer
        flushError none) := by
  obtain ⟨latest, found⟩ := exists_latest t startedAt groupId createdBy
  obtain ⟨listed, group, -⟩ := getLatestForGroup_some found
  have running : flushJob row (markRunning startedAt celeryTaskId row) row =
      markRunning startedAt celeryTaskId row := flushJob_markRunning startedAt celeryTaskId row
  have free : ∀ rivals : List BackgroundJob, (∀ other ∈ rivals, other ∈ others ++ uncommitted) →
      rivals.any (markRunning startedAt celeryTaskId row).conflicts = false := by
    intro rivals among
    rw [List.any_eq_false]
    intro other ho
    rw [conflicts_markRunning pending, apart other (among other ho)]
    exact Bool.false_ne_true
  refine ⟨latest, min 10 (logs.logs.filter fun log => log.errorGroupId = some groupId).length,
    found, ?_⟩
  have load : (executionMachine logs others uncommitted).step ⟨.started, row, t⟩ .load =
      some ⟨.loaded row, row, t⟩ := by
    simp [executionMachine, analysisStep, analysisLoad, skipsExecution, pending]
  have prepare : (executionMachine logs others uncommitted).step ⟨.loaded row, row, t⟩
      (.prepare startedAt celeryTaskId none none) =
      some ⟨.prepared (markRunning startedAt celeryTaskId row)
          (pendingAnalysis startedAt groupId createdBy t.nextAnalysisId),
        markRunning startedAt celeryTaskId row,
        (createPendingAnalysis startedAt groupId createdBy t).2⟩ := by
    simp only [executionMachine, analysisStep, prepareAnalysis, running]
    rw [free uncommitted (by simp +contextual), free others (by simp +contextual)]
    simp [markRunning, named, requested, known, createPendingAnalysis]
  -- the copy the session holds of the new analysis is its row
  have copied : (if latest.id = (pendingAnalysis startedAt groupId createdBy t.nextAnalysisId).id
      then pendingAnalysis startedAt groupId createdBy t.nextAnalysisId else latest) = latest := by
    split
    · rename_i same
      exact (valid.create startedAt groupId createdBy).eq_of_id (by simp [createPendingAnalysis])
        listed same.symm
    · rfl
  have select : (executionMachine logs others uncommitted).step
      ⟨.prepared (markRunning startedAt celeryTaskId row)
          (pendingAnalysis startedAt groupId createdBy t.nextAnalysisId),
        markRunning startedAt celeryTaskId row,
        (createPendingAnalysis startedAt groupId createdBy t).2⟩ (.select none) =
      some ⟨.analyzing (markRunning startedAt celeryTaskId row) latest
          (min 10 (logs.logs.filter fun log => log.errorGroupId = some groupId).length),
        markRunning startedAt celeryTaskId row,
        (createPendingAnalysis startedAt groupId createdBy t).2⟩ := by
    have newest : getLatestForGroup
        (pendingAnalysis startedAt groupId createdBy t.nextAnalysisId).errorGroupId
        (createPendingAnalysis startedAt groupId createdBy t).2.analyses = some latest := found
    simp only [executionMachine, analysisStep, selectLatest, newest, copied]
    rfl
  rw [uninterrupted, run_cons, load, Option.bind_some, run_cons, prepare, Option.bind_some,
    run_cons, select, Option.bind_some, run_cons]
  rfl

theorem OutcomeRecorded.ended {answer : Except Str AIAnalysisResult} {createdId : Nat}
    {s : AnalysisOutcome} (recorded : OutcomeRecorded answer createdId s) :
    ∃ a ∈ s.tables.analyses, a.id = createdId ∧ a.status ≠ .pending := by
  obtain ⟨-, a, ha, named, outcome⟩ := recorded
  refine ⟨a, ha, named, ?_⟩
  cases outcome with
  | inl completed =>
    obtain ⟨-, -, -, -, status, -⟩ := completed
    simp [status]
  | inr failed =>
    obtain ⟨-, -, status, -⟩ := failed
    simp [status]

theorem recordAnalysis_iff (created : ErrorAnalysis) {latest : ErrorAnalysis} {job : BackgroundJob}
    (valid : t.Valid) (listed : created ∈ t.analyses) (found : latest ∈ t.analyses)
    (pending : created.status = .pending) (blank : created.resultFields = {})
    (logCount : Nat) (analyzedAt completedAt : Timestamp) (answer : Except Str AIAnalysisResult)
    (flushError : Option Str) :
    OutcomeRecorded answer created.id
        (recordAnalysis job t job latest logCount analyzedAt completedAt answer flushError none) ↔
      flushError = none ∧ (∀ result, answer = .ok result → result.storable = true) ∧
        latest = created := by
  -- where an other analysis is written, the created one is still pending
  have own (new : ErrorAnalysis) {a : ErrorAnalysis}
      (ha : a ∈ (t.edit latest.id (flushAnalysis latest new)).analyses)
      (named : a.id = created.id) (ended : a.status ≠ .pending) : latest = created := by
    cases mem_edit.mp ha with
    | inl changed =>
      obtain ⟨old, ho, same, rfl⟩ := changed
      exact valid.eq_of_id found listed (same.symm.trans named)
    | inr kept =>
      rw [valid.eq_of_id kept.1 listed named] at ended
      exact absurd pending ended
  have edited (new : ErrorAnalysis) (own : latest = created) :
      flushAnalysis created new created ∈
        (t.edit latest.id (flushAnalysis latest new)).analyses :=
    mem_edit.mpr (.inl ⟨created, listed, by rw [own], by rw [own]⟩)
  cases flushError with
  | some text =>
    refine iff_of_false (fun recorded => ?_) (by simp)
    cases recorded.1
  | none =>
    cases answer with
    | ok result =>
      by_cases storable : result.storable = true
      · simp only [recordAnalysis, Option.or_none, storable, if_true, flushJob_updateProgress]
        constructor
        · intro recorded
          obtain ⟨a, ha, named, ended⟩ := recorded.ended
          exact ⟨trivial, by simp [storable], own _ ha named ended⟩
        · rintro ⟨-, -, own⟩
          refine ⟨rfl, _, edited _ own, rfl, .inl ⟨result, rfl, rfl, rfl, ?_⟩⟩
          rw [own, flushAnalysis_complete]
          exact ⟨rfl, rfl⟩
      · refine iff_of_false (fun recorded => ?_) (by simp [storable])
        simp only [OutcomeRecorded, recordAnalysis, Option.or_none, storable] at recorded
        cases recorded.1
    | error text =>
      simp only [recordAnalysis, Option.or_none, flushJob_updateProgress]
      constructor
      · intro recorded
        obtain ⟨a, ha, named, ended⟩ := recorded.ended
        exact ⟨trivial, by simp, own _ ha named ended⟩
      · rintro ⟨-, -, own⟩
        refine ⟨rfl, _, edited _ own, rfl, .inr ⟨rfl, rfl, ?_⟩⟩
        rw [own, flushAnalysis_fail]
        exact ⟨rfl, blank⟩

/-- An execution that is not interrupted comes to an end, and records the outcome exactly if
the columns take the result, no flush of it raises and no analysis of the group is dated later. -/
theorem analysis_outcome_iff (row : BackgroundJob) (logs : LogTables) (t : AnalysisTables)
    (others uncommitted : List BackgroundJob) (groupId createdBy : Nat)
    (valid : t.Valid) (pending : row.status = .pending)
    (named : row.payload.groupId = some groupId)
    (requested : row.payload.requestedBy = some createdBy)
    (known : (logs.errorGroups.any fun g => g.id = groupId) = true)
    (apart : ∀ other ∈ others ++ uncommitted, row.conflicts other = false)
    (startedAt analyzedAt completedAt : Timestamp) (celeryTaskId : Option Str)
    (answer : Except Str AIAnalysisResult) (flushError : Option Str) :
    ∃ s, (executionMachine logs others uncommitted).run ⟨.started, row, t⟩
        (uninterrupted startedAt analyzedAt completedAt celeryTaskId answer flushError) = some s ∧
      (OutcomeRecorded answer t.nextAnalysisId s ↔
        Recordable t groupId startedAt answer flushError) := by
  obtain ⟨latest, logCount, found, ran⟩ := execution_run valid pending named requested known apart
    startedAt analyzedAt completedAt celeryTaskId answer flushError
  refine ⟨_, ran, ?_⟩
  rw [Recordable, ← latest_created_iff valid found]
  exact recordAnalysis_iff (pendingAnalysis startedAt groupId createdBy t.nextAnalysisId)
    (valid.create startedAt groupId createdBy) (by simp [createPendingAnalysis])
    (getLatestForGroup_some found).1 rfl rfl logCount analyzedAt completedAt answer flushError

end Execution

section Sample

/-- A job of `analyzeOnce`, as `create_job` inserts it. -/
def waitingJob : BackgroundJob := newJob ['j'] (analysisJobArgs 1 7)

def sampleResult (summary : Str) (length : 1 ≤ summary.length ∧ summary.length ≤ 4000) :
    AIAnalysisResult where
  summary := summary
  summary_length := length
  likelyRootCause := ['p', 'o', 'o', 'l']
  suggestedFix := ['f', 'i', 'x']
  confidence := 1 / 2
  confidence_range := by constructor <;> norm_num
  affectedComponent := ['d', 'b']
  recommendedPriority := .medium
  reasoningSummary := ['r']
  generatedAt := { clock := 0, utcoffset := some 0 }
  provider := ['m', 'o', 'c', 'k']
  model := ['g', 'p', 't']
  latencyMs := 5

theorem analysis_outcome_completes :
    ∃ s, (executionMachine { errorGroups := [sampleGroup] } [] []).run
        ⟨.started, waitingJob, {}⟩
        (uninterrupted 1 2 3 none (.ok (sampleResult ['s'] (by decide))) none) = some s ∧
      OutcomeRecorded (.ok (sampleResult ['s'] (by decide))) 1 s := by
  obtain ⟨s, ran, exact⟩ := analysis_outcome_iff waitingJob { errorGroups := [sampleGroup] } {} []
    [] 1 7 ⟨List.nodup_nil, by simp⟩ rfl rfl rfl (by decide) (by simp) 1 2 3 none
    (.ok (sampleResult ['s'] (by decide))) none
  refine ⟨s, ran, exact.mpr ⟨rfl, ?_, by simp⟩⟩
  rintro result ⟨⟩
  decide

/-- The summary holds U+0000: the flush fails, and so does the flush of the handler. -/
theorem analysis_outcome_fails :
    ∃ s, (executionMachine { errorGroups := [sampleGroup] } [] []).run
        ⟨.started, waitingJob, {}⟩
        (uninterrupted 1 2 3 none (.ok (sampleResult [Char.ofNat 0] (by decide))) none) = some s ∧
      s.exec = .raised (.other "PendingRollbackError".toList) ∧ s.row.status = .running ∧
      ¬ OutcomeRecorded (.ok (sampleResult [Char.ofNat 0] (by decide))) 1 s := by
  refine ⟨_, rfl, by decide, by decide, fun recorded => ?_⟩
  cases recorded.1

end Sample

end LogLens
