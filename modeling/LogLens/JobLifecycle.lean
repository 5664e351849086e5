import LogLens.AbandonedJobs

/-! The committed status of a job moves from pending to running to a terminal status,
and `completed_at` is set exactly in a terminal one: in the runs where no transaction
that assigns a status meets a row that is terminal with an other one. -/

namespace LogLens
open LabelledMachine MessageBroker

/-- pending, running, then one terminal status; a transaction may take several moves. -/
def BackgroundJobStatus.Forward (old new : BackgroundJobStatus) : Prop :=
  old = new ∨ old = .pending ∨ (old = .running ∧ new.active = false)

instance (old new : BackgroundJobStatus) : Decidable (old.Forward new) :=
  inferInstanceAs (Decidable (_ ∨ _))

/-- `completed_at` is set exactly in a terminal status. -/
def Stamped (job : BackgroundJob) : Prop := job.completedAt.isSome = !job.status.active

instance (job : BackgroundJob) : Decidable (Stamped job) := inferInstanceAs (Decidable (_ = _))

/-- What a step may do to the committed jobs. -/
structure Lifecycle {ι : Type} (s t : JobSystem ι) : Prop where
  forward : ∀ row ∈ s.calls.jobs, ∃ row' ∈ t.calls.jobs, row'.id = row.id ∧
    row.status.Forward row'.status
  created : ∀ row' ∈ t.calls.jobs, row'.status = .pending ∨ ∃ row ∈ s.calls.jobs, row.id = row'.id
  stamped : ∀ row' ∈ t.calls.jobs, Stamped row'

/-- The status that a transaction writes to the row of its job when it commits. -/
def assignedStatus (logs : LogTables) (row : BackgroundJob) :
    TaskExec → TaskEvent → Option BackgroundJobStatus
  | .bulk (.loaded job), .bulk (.markRunning ..) =>
    if job.status = .running then none else some .running
  | .bulk (.items _ items _ successCount failures), .bulk (.complete ..) =>
    some (bulkFinalStatus items successCount failures.length)
  | .analysis (.loaded job), .analysis (.prepare ..) =>
    if row.payload.groupId.any fun id => logs.errorGroups.any fun g => g.id = id then
      if job.status = .running then none else some .running
    else some .failed
  | .analysis (.analyzing ..), .analysis (.finish _ _ (.ok _) _ _) => some .completed
  | .analysis (.analyzing ..), .analysis (.finish _ _ (.error _) _ _) => some .failed
  | _, _ => none

section Condition
variable {ι : Type} [Platform]

def JobSystem.commits (s : JobSystem ι) (exec : TaskExec) (event : TaskEvent)
    (row : BackgroundJob) : Bool :=
  (s.outcome exec event row).any fun outcome => outcome.exec.ending ≠ some .raised

/-- A transaction that commits a status finds its job active, or with that status. -/
def AssignsForward (s : JobSystem ι) : JobOp ι → Prop
  | .work n event => ∀ d ∈ s.broker.deliveries[n]?, ∀ row ∈ s.calls.jobs, row.id = d.1.jobId →
    s.commits d.2 event row = true → ∀ status ∈ assignedStatus s.logs row d.2 event,
      row.status.active = true ∨ row.status = status
  | _ => True

end Condition

section Statuses

theorem stamped_terminal {job : BackgroundJob} (stamped : Stamped job)
    (terminal : job.status.active = false) : job.completedAt.isSome = true := by
  rw [stamped, terminal]
  rfl

/-- What a step of an execution makes of the status and of `completed_at`. -/
inductive StatusEffect (row : BackgroundJob) : Option BackgroundJobStatus → BackgroundJob → Prop
  | keeps {row' : BackgroundJob} : row'.status = row.status → row'.completedAt = row.completedAt →
    StatusEffect row none row'
  | runs {row' : BackgroundJob} : row'.status = .running → row'.completedAt = row.completedAt →
    StatusEffect row (some .running) row'
  | ends {status : BackgroundJobStatus} {row' : BackgroundJob} : status.active = false →
    row'.status = status → row'.completedAt.isSome = true → StatusEffect row (some status) row'

theorem forward_terminal {old new : BackgroundJobStatus} (terminal : new.active = false) :
    old.Forward new ↔ old.active = true ∨ old = new := by
  revert terminal
  cases old <;> cases new <;> decide

theorem forward_running {old : BackgroundJobStatus} :
    old.Forward .running ↔ old.active = true := by
  cases old <;> decide

/-- The status goes forward exactly if the row was active or had the status assigned. -/
theorem StatusEffect.forward_iff {row row' : BackgroundJob} {assigned : Option BackgroundJobStatus}
    (effect : StatusEffect row assigned row') (stamped : Stamped row) :
    (row.status.Forward row'.status ∧ Stamped row') ↔
      ∀ status ∈ assigned, row.status.active = true ∨ row.status = status := by
  unfold Stamped at *
  cases effect with
  | keeps status completedAt =>
    rw [status, completedAt]
    exact iff_of_true ⟨.inl rfl, stamped⟩ (by simp)
  | runs status completedAt =>
    rw [status, completedAt, stamped, forward_running]
    cases row.status <;> simp [BackgroundJobStatus.active]
  | ends terminal status completedAt =>
    rw [status, completedAt, terminal, forward_terminal terminal]
    simp

/-- A copy has the stamp of its status, and the status of its row once it is terminal. -/
def TaskExec.Ordered (exec : TaskExec) (row : BackgroundJob) : Prop :=
  ∀ job ∈ exec.copy, Stamped job ∧ (job.status.active = false → row.status = job.status)

theorem TaskExec.Ordered.forward {exec : TaskExec} {row row' : BackgroundJob}
    (ordered : exec.Ordered row) (forward : row.status.Forward row'.status) :
    exec.Ordered row' := by
  intro job held
  obtain ⟨stamped, same⟩ := ordered job held
  refine ⟨stamped, fun terminal => ?_⟩
  have before := same terminal
  rw [before] at forward
  cases forward with
  | inl unchanged => exact unchanged.symm
  | inr moves =>
    cases moves with
    | inl pending =>
      rw [pending] at terminal
      cases terminal
    | inr running =>
      rw [running.1] at terminal
      cases terminal

/-- The status a step commits: none if its transaction raises. -/
def committedStatus (ended : TaskExec) (assigned : Option BackgroundJobStatus) :
    Option BackgroundJobStatus :=
  if ended.ending = some .raised then none else assigned

theorem committedStatus_raised {ended : TaskExec} (raised : ended.ending = some .raised)
    (assigned : Option BackgroundJobStatus) : committedStatus ended assigned = none := if_pos raised

theorem committedStatus_other {ended : TaskExec} (other : ended.ending ≠ some .raised)
    (assigned : Option BackgroundJobStatus) : committedStatus ended assigned = assigned :=
  if_neg other

/-- `mark_running` writes RUNNING unless the copy says so already. -/
theorem markRunning_status (now : Timestamp) (celeryTaskId : Option Str)
    (job row : BackgroundJob) :
    StatusEffect row (if job.status = .running then none else some .running)
      (flushJob job (markRunning now celeryTaskId job) row) := by
  have same : (flushJob job (markRunning now celeryTaskId job) row).completedAt =
      row.completedAt := flushColumn_unchanged _ _
  split
  · rename_i running
    refine .keeps ?_ same
    simp only [flushJob, markRunning, running, flushColumn_unchanged]
  · rename_i waiting
    exact .runs (flushColumn_changed (Ne.symm waiting) _) same

/-- `mark_completed` writes a terminal status; where the copy holds it already, so does the row. -/
theorem markCompleted_status (now : Timestamp) {status : BackgroundJobStatus}
    (terminal : status.active = false) (errorSummary : Option Str) {job row : BackgroundJob}
    (copied : Stamped job) (same : job.status.active = false → row.status = job.status)
    (stamped : Stamped row) :
    StatusEffect row (some status)
      (flushJob job (markCompleted now status errorSummary job) row) := by
  refine .ends terminal ?_ ?_
  · by_cases unwritten : status = job.status
    · have final := same (unwritten ▸ terminal)
      simp only [flushJob, markCompleted, unwritten, flushColumn_unchanged, final]
    · exact flushColumn_changed unwritten _
  · by_cases unwritten : some now = job.completedAt
    · have held : job.status.active = false := by
        unfold Stamped at copied
        rw [← unwritten] at copied
        simpa using copied
      have final := stamped_terminal stamped (same held ▸ held)
      simp only [flushJob, markCompleted, unwritten, flushColumn_unchanged, final]
    · simp only [flushJob, markCompleted, flushColumn_changed unwritten, Option.isSome_some]

section Steps
variable [Platform] {row : BackgroundJob} {logs : LogTables} {analyses : AnalysisTables}

theorem bulkStep_status {exec : BulkExec} {event : BulkEvent} {outcome : BulkOutcome}
    (ordered : (TaskExec.bulk exec).Ordered row) (stamped : Stamped row)
    (valid : (TaskExec.bulk exec).Valid row) (moved : bulkStep exec event row logs = some outcome) :
    StatusEffect row (committedStatus (.bulk outcome.exec)
      (assignedStatus logs row (.bulk exec) (.bulk event))) outcome.row := by
  have progress (job : BackgroundJob) (index count : Nat) (failures : List BulkLogItemFailure) :
      StatusEffect row none (flushJob job (itemProgress index count failures job) row) :=
    .keeps (flushColumn_unchanged _ _) (flushColumn_unchanged _ _)
  cases bulkStep_moves moved with
  | loads =>
    have idle : (TaskExec.bulk (bulkLoad row)).ending ≠ some .raised := by
      unfold bulkLoad
      split <;> simp [TaskExec.ending]
    rw [committedStatus_other idle]
    exact .keeps rfl rfl
  | breaks =>
    rw [committedStatus_raised rfl]
    exact .keeps rfl rfl
  | enters job now celeryTaskId =>
    obtain ⟨first, rest, entered⟩ := enterLoop_valid valid now celeryTaskId
    rw [entered, committedStatus_other (by simp [TaskExec.ending])]
    exact markRunning_status now celeryTaskId job row
  | persists job => exact progress job _ _ _
  | fails job => exact progress job _ _ _
  | @completes job items index successCount failures now last =>
    have nonempty := valid.looping job items index successCount failures rfl
    obtain ⟨copied, same⟩ := ordered job rfl
    exact markCompleted_status now (inactive_of_skips
      (bulkFinalStatus_skips nonempty successCount failures.length)) _ copied same stamped

omit [Platform] in
theorem analysisStep_status {rivals : List BackgroundJob} {exec : AnalysisExec}
    {event : AnalysisEvent} {outcome : AnalysisOutcome}
    (effect : AnalysisEffect row logs analyses rivals exec event outcome) :
    StatusEffect row (committedStatus (.analysis outcome.exec)
      (assignedStatus logs row (.analysis exec) (.analysis event))) outcome.row := by
  cases effect with
  | loads | skips | breaks | selects => exact .keeps rfl rfl
  | prepares group user known free =>
    rw [committedStatus_other (by simp [TaskExec.ending])]
    simp only [assignedStatus, group, Option.any_some, known, if_true]
    exact markRunning_status _ _ _ row
  | misses group unknown =>
    rw [committedStatus_other (by simp [TaskExec.ending])]
    simp only [assignedStatus, group, Option.any_some, unknown, Bool.false_eq_true, if_false]
    exact .ends rfl rfl rfl
  | completes => exact .ends rfl rfl rfl
  | fails => exact .ends rfl rfl rfl

/-- A transaction that commits writes the status it assigns, and no other does. -/
theorem taskStep_status {exec : TaskExec} {event : TaskEvent}
    {others uncommitted : List BackgroundJob} {outcome : TaskOutcome} (ordered : exec.Ordered row)
    (stamped : Stamped row) (valid : exec.Valid row)
    (moved : taskStep exec event row others uncommitted logs analyses = some outcome) :
    StatusEffect row (committedStatus outcome.exec (assignedStatus logs row exec event))
      outcome.row := by
  cases exec with
  | bulk exec =>
    cases event with
    | bulk event =>
      obtain ⟨done, stepped, rfl⟩ := Option.map_eq_some_iff.mp moved
      exact bulkStep_status ordered stamped valid stepped
    | analysis => cases moved
  | analysis exec =>
    cases event with
    | analysis event =>
      obtain ⟨done, stepped, rfl⟩ := Option.map_eq_some_iff.mp moved
      exact analysisStep_status (analysisStep_effect _ _ _ stepped)
    | bulk => cases moved

end Steps

end Statuses

section Runs
variable {ι : Type} {jobId : ι → Str} {requestHash : List LogIngestRequest → Str}
  {requests : ι → JobRequest} {s t : JobSystem ι}

/-- Rows and the copies of the executions while every status goes forward. -/
structure LifecycleInvariant (s : JobSystem ι) : Prop where
  stamped : ∀ row ∈ s.calls.jobs, Stamped row
  ordered : ∀ d ∈ s.broker.deliveries, ∀ row ∈ s.calls.jobs, row.id = d.1.jobId → d.2.Ordered row

theorem lifecycleInvariant_initial (logs : LogTables) (analyses : AnalysisTables) :
    LifecycleInvariant ({ logs := logs, analyses := analyses } : JobSystem ι) where
  stamped := by simp
  ordered := by simp

theorem forward_refl (status : BackgroundJobStatus) : status.Forward status := .inl rfl

theorem lifecycle_same (holds : LifecycleInvariant s) (same : t.calls.jobs = s.calls.jobs) :
    Lifecycle s t where
  forward row hr := ⟨row, same ▸ hr, rfl, forward_refl _⟩
  created row hr := .inr ⟨row, same ▸ hr, rfl⟩
  stamped row hr := holds.stamped row (same ▸ hr)

theorem lifecycle_created (holds : LifecycleInvariant s) {new : BackgroundJob}
    (pending : new.status = .pending) (stamped : Stamped new)
    (added : t.calls.jobs = s.calls.jobs ++ [new]) : Lifecycle s t := by
  have rows : ∀ row ∈ t.calls.jobs, row ∈ s.calls.jobs ∨ row = new := by
    intro row hr
    simpa [added] using hr
  refine ⟨fun row hr => ?_, fun row hr => ?_, fun row hr => ?_⟩
  · exact ⟨row, added ▸ List.mem_append_left _ hr, rfl, forward_refl _⟩
  · cases rows row hr with
    | inl old => exact .inr ⟨row, old, rfl⟩
    | inr own => exact .inl (own ▸ pending)
  · cases rows row hr with
    | inl old => exact holds.stamped row old
    | inr own => exact own ▸ stamped

theorem lifecycle_written (valid : JobInvariant jobId requestHash requests s)
    (holds : LifecycleInvariant s) {row row' : BackgroundJob} (hr : row ∈ s.calls.jobs)
    (sameId : row'.id = row.id) (written : t.calls.jobs = s.calls.jobs.map (writeRow row')) :
    Lifecycle s t ↔ row.status.Forward row'.status ∧ Stamped row' := by
  have rows : ∀ other, other ∈ t.calls.jobs ↔
      other = row' ∨ (other ∈ s.calls.jobs ∧ other.id ≠ row'.id) := fun other =>
    written ▸ mem_writeRow ⟨row, hr, sameId.symm⟩
  constructor
  · intro lifecycle
    obtain ⟨after, ha, same, forward⟩ := lifecycle.forward row hr
    cases (rows after).mp ha with
    | inl own => exact ⟨own ▸ forward, lifecycle.stamped _ ((rows _).mpr (.inl rfl))⟩
    | inr other => exact absurd (same.trans sameId.symm) other.2
  · intro both
    refine ⟨fun old ho => ?_, fun after ha => ?_, fun after ha => ?_⟩
    · by_cases own : old.id = row'.id
      · have sameRow := valid.eq_of_id ho hr (own.trans sameId)
        exact ⟨row', (rows _).mpr (.inl rfl), own.symm, sameRow ▸ both.1⟩
      · exact ⟨old, (rows old).mpr (.inr ⟨ho, own⟩), rfl, forward_refl _⟩
    · cases (rows after).mp ha with
      | inl own => exact .inr ⟨row, hr, own ▸ sameId.symm⟩
      | inr other => exact .inr ⟨after, other.1, rfl⟩
    · cases (rows after).mp ha with
      | inl own => exact own ▸ both.2
      | inr other => exact holds.stamped after other.1

theorem start_ordered (task : TaskName) (row : BackgroundJob) : task.start.Ordered row := by
  cases task <;> rintro job ⟨⟩

variable [Platform]

/-- What a step of a delivery may assign, said of the one row it writes. -/
theorem assignsForward_iff (valid : JobInvariant jobId requestHash requests s) {n : Nat}
    {event : TaskEvent} {d : TaskMessage × TaskExec} {row : BackgroundJob} {outcome : TaskOutcome}
    (here : s.broker.deliveries[n]? = some d) (hr : row ∈ s.calls.jobs)
    (sameId : row.id = d.1.jobId) (stepped : s.outcome d.2 event row = some outcome) :
    AssignsForward s (.work n event) ↔
      ∀ assigned ∈ committedStatus outcome.exec (assignedStatus s.logs row d.2 event),
        row.status.active = true ∨ row.status = assigned := by
  have commits : s.commits d.2 event row = true ↔ outcome.exec.ending ≠ some .raised := by
    simp [JobSystem.commits, stepped]
  constructor
  · intro forward assigned assigns
    have ok : outcome.exec.ending ≠ some .raised := fun raised => by
      simp [committedStatus_raised raised] at assigns
    rw [committedStatus_other ok] at assigns
    exact forward d here row hr sameId (commits.mpr ok) assigned assigns
  · intro forward d' here' row' hr' sameId' ok assigned assigns
    have sameDelivery : d' = d := Option.some.inj (here'.symm.trans here)
    subst sameDelivery
    have sameRow := valid.eq_of_id hr' hr (sameId'.trans sameId.symm)
    subst sameRow
    refine forward assigned ?_
    rwa [committedStatus_other (commits.mp ok)]

/-- A step is one of the lifecycle exactly if it assigns no status to a row that is terminal
with an other one. -/
theorem lifecycle_iff (valid : JobInvariant jobId requestHash requests s)
    (holds : LifecycleInvariant s) {op : JobOp ι}
    (effect : JobEffect jobId requestHash requests s op t) :
    Lifecycle s t ↔ AssignsForward s op := by
  cases effect with
  | keeps _ idle same =>
    refine iff_of_true (lifecycle_same holds same) ?_
    cases op with
    | work n event => exact absurd rfl (idle n event)
    | request | dispatch | dispatchRaises | deliver | redeliver | lose | due | logs => trivial
  | creates added => exact iff_of_true (lifecycle_created holds (by rfl) (by rfl) added) trivial
  | @works n event d row outcome calls here hr sameId stepped spec written =>
    have status := taskStep_status (holds.ordered d (List.mem_of_getElem? here) row hr sameId)
      (holds.stamped row hr) (valid.execs d (List.mem_of_getElem? here) row hr sameId) stepped
    rw [assignsForward_iff valid here hr sameId stepped,
      ← status.forward_iff (holds.stamped row hr)]
    exact lifecycle_written valid holds hr spec.same.1 written

/-- A step of the lifecycle keeps the copies in order. -/
theorem LifecycleInvariant.next (valid : JobInvariant jobId requestHash requests s)
    (after : JobInvariant jobId requestHash requests t) (holds : LifecycleInvariant s)
    {op : JobOp ι} (effect : JobEffect jobId requestHash requests s op t)
    (lifecycle : Lifecycle s t) : LifecycleInvariant t := by
  -- an execution from before keeps its order, for whichever row now has its id
  have old : ∀ d ∈ s.broker.deliveries, ∀ row' ∈ t.calls.jobs, row'.id = d.1.jobId →
      d.2.Ordered row' := by
    intro d hd row' hr' sameId
    obtain ⟨row, hr, known, -⟩ := valid.messages d.1 (mem_messages_of_mem hd)
    obtain ⟨row'', hr'', same, forward⟩ := lifecycle.forward row hr
    have sameRow := after.eq_of_id hr'' hr' (same.trans (known.trans sameId.symm))
    exact (holds.ordered d hd row hr known).forward (sameRow ▸ forward)
  refine ⟨lifecycle.stamped, fun e he row' hr' sameId => ?_⟩
  cases effect with
  | keeps _ idle same analyses started fewer =>
    cases List.mem_append.mp (fewer.subset he) with
    | inl before => exact old e before row' hr' sameId
    | inr new => exact started e new ▸ start_ordered _ row'
  | creates added => exact old e he row' hr' sameId
  | @works n event d row outcome calls here hr known stepped spec written =>
    cases JobInvariant.mem_settle_deliveries he with
    | inl before => exact old e before row' hr' sameId
    | inr own =>
      rw [own] at sameId ⊢
      intro job held
      have present : outcome.row ∈ calls.jobs := by
        rw [written]
        exact (mem_writeRow ⟨row, hr, spec.same.1.symm⟩).mpr (.inl rfl)
      have sameRow := after.eq_of_id present hr' (spec.same.1.trans (known.trans sameId.symm))
      cases spec.copy job held with
      | inl new =>
        rw [new, sameRow]
        exact ⟨lifecycle.stamped row' hr', fun _ => rfl⟩
      | inr before =>
        rw [← sameRow, before.2]
        exact holds.ordered d (List.mem_of_getElem? here) row hr known job before.1

/-- All steps of a run are steps of the lifecycle exactly when no transaction that commits a
status finds its job terminal with an other one. -/
theorem job_lifecycle_iff [DecidableEq ι] (jobId : ι → Str)
    (requestHash : List LogIngestRequest → Str) (requests : ι → JobRequest)
    (fresh : Function.Injective jobId) (logs : LogTables) (analyses : AnalysisTables)
    (ops : List (JobOp ι)) (s : JobSystem ι)
    (ran : (jobMachine jobId requestHash requests).run { logs := logs, analyses := analyses } ops =
      some s) :
    (∀ before op after u t, ops = before ++ op :: after →
      (jobMachine jobId requestHash requests).run { logs := logs, analyses := analyses } before =
        some u → (jobMachine jobId requestHash requests).step u op = some t → Lifecycle u t) ↔
      Meets (jobMachine jobId requestHash requests) AssignsForward
        { logs := logs, analyses := analyses } ops :=
  steps_iff_meets (I := fun u => JobInvariant jobId requestHash requests u ∧ LifecycleInvariant u)
    (fun _ _ _ both moved => lifecycle_iff both.1 both.2 (job_effect both.1 moved))
    (fun _ _ _ both moved lifecycle => ⟨both.1.next fresh moved,
      both.2.next both.1 (both.1.next fresh moved) (job_effect both.1 moved) lifecycle⟩)
    ⟨jobInvariant_initial logs analyses, lifecycleInvariant_initial logs analyses⟩ ran

end Runs

section Sample

instance [Platform] {ι : Type} (s : JobSystem ι) :
    (op : JobOp ι) → Decidable (AssignsForward s op)
  | .work n event => inferInstanceAs (Decidable
      (∀ d ∈ s.broker.deliveries[n]?, ∀ row ∈ s.calls.jobs, row.id = d.1.jobId →
        s.commits d.2 event row = true → ∀ status ∈ assignedStatus s.logs row d.2 event,
          row.status.active = true ∨ row.status = status))
  | .request _ | .dispatch _ | .dispatchRaises _ | .deliver _ | .redeliver _ | .lose _ | .due _
  | .logs _ => isTrue trivial

theorem job_lifecycle_analyzeWithRetry :
    ∃ s, analyzeOnceMachine.run analyzeOnceStart analyzeWithRetry = some s ∧
      s.calls.jobs.map (·.status) = [.failed] ∧
      ∀ before op after u t, analyzeWithRetry = before ++ op :: after →
        analyzeOnceMachine.run analyzeOnceStart before = some u →
        analyzeOnceMachine.step u op = some t → Lifecycle u t := by
  obtain ⟨s, ran⟩ : ∃ s, analyzeOnceMachine.run analyzeOnceStart analyzeWithRetry = some s :=
    Option.isSome_iff_exists.mp (by decide)
  have ended : (analyzeOnceMachine.run analyzeOnceStart analyzeWithRetry).map
      (fun s => s.calls.jobs.map (·.status)) = some [.failed] := by decide
  rw [ran, Option.map_some, Option.some.injEq] at ended
  have injective : Function.Injective analyzeOnceId := fun i k _ => Subsingleton.elim i k
  exact ⟨s, ran, ended, (@job_lifecycle_iff _ asciiPlatform _ analyzeOnceId (fun _ => [])
    analyzeOnce injective { errorGroups := [sampleGroup] } {} analyzeWithRetry s ran).mpr
      (by decide)⟩

/-- The message is delivered again after the job failed, but before it was acknowledged. -/
def failedThenRedelivered : List (JobOp (Fin 1)) :=
  [.request onlyRequest, .request onlyRequest, .request onlyRequest, .request onlyRequest,
    .dispatch onlyRequest, .deliver (analyzeMessage 0),
    .redeliver 0, .work 0 (.analysis .load), .work 0 (.analysis (.prepare 1 none none none)),
    .work 0 (.analysis (.select none)),
    .work 0 (.analysis (.finish 2 3 (.error "timeout".toList) none none)),
    .deliver (analyzeMessage 0), .work 0 (.analysis .load)]

/-- The failed job is running again, and keeps its `completed_at`. -/
theorem job_lifecycle_fails :
    ¬ ∀ ops op u t, analyzeOnceMachine.run analyzeOnceStart ops = some u →
      analyzeOnceMachine.step u op = some t → Lifecycle u t := by
  intro lifecycle
  let op : JobOp (Fin 1) := .work 0 (.analysis (.prepare 4 none none none))
  have revived : ((analyzeOnceMachine.run analyzeOnceStart failedThenRedelivered).bind fun u =>
      (analyzeOnceMachine.step u op).map fun t => t.calls.jobs.any fun row => !decide (Stamped row))
      = some true := by decide
  obtain ⟨u, ran, moved⟩ := Option.bind_eq_some_iff.mp revived
  obtain ⟨t, moved, unstamped⟩ := Option.map_eq_some_iff.mp moved
  obtain ⟨row, hr, bad⟩ := List.any_eq_true.mp unstamped
  have stamped := (lifecycle failedThenRedelivered op u t ran moved).stamped row hr
  simp [stamped] at bad

end Sample

end LogLens
