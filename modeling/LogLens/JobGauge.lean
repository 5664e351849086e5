import LogLens.JobLifecycle

/-! `ACTIVE_BACKGROUND_JOBS` beside the rows it is to count: increments less decrements over
all processes. `create_job` increments between its INSERT and its commit; the bulk task
decrements after its last commit, the analysis task before it. A process may be lost between
the two. -/

namespace LogLens
open LabelledMachine MessageBroker

/-- The rows of a type that are pending or running. -/
def activeJobs (jobType : BackgroundJobType) (rows : List BackgroundJob) : Nat :=
  rows.countP fun row => row.jobType = jobType && row.status.active

/-- The step passes `decrement_active_background_jobs`. -/
def TaskExec.decrements : TaskExec → TaskEvent → Bool
  | .bulk (.items ..), .bulk (.complete _ none) => true
  | .analysis (.analyzing ..), .analysis (.finish _ _ (.ok result) none _) => result.storable
  | .analysis (.analyzing ..), .analysis (.finish _ _ (.error _) none _) => true
  | _, _ => false

structure GaugeRun (ι : Type) where
  system : JobSystem ι
  gauge : BackgroundJobType → Int := fun _ => 0

inductive GaugeOp (ι : Type)
  | job (op : JobOp ι)
  /-- the commit of `create_job` raises, or its process is lost before it -/
  | commitFails (i : ι)
  /-- the worker of a bulk job is lost between its last commit and the decrement -/
  | lostAfterCommit (n : Nat) (now : Timestamp)
  /-- the worker of an analysis is lost between the decrement and its last commit -/
  | lostBeforeCommit (n : Nat)

/-- `labels(job_type=...).inc()` and `.dec()` -/
def addTo (gauge : BackgroundJobType → Int) (jobType : BackgroundJobType) (change : Int) :
    BackgroundJobType → Int :=
  Function.update gauge jobType (gauge jobType + change)

/-- No call of `create_job` and no execution of a task is in progress. -/
def JobSystem.Quiet {ι : Type} (s : JobSystem ι) : Prop :=
  (∀ i, s.calls.phase i = .selectByKey ∨ ∃ answer seen,
    s.calls.phase i = .finished answer seen) ∧ s.broker.deliveries = []

section Machine
variable {ι : Type} [DecidableEq ι] [Platform] (jobId : ι → Str)
  (requestHash : List LogIngestRequest → Str) (requests : ι → JobRequest)

/-- The transaction of a call ends without its row. -/
def JobCalls.abandon (s : JobCalls ι) (i : ι) : JobCalls ι :=
  { s.finish i (.error integrityError) with
    uncommitted := s.uncommitted.filter fun p => p.1 ≠ i }

/-- A flushed INSERT is counted. -/
def afterCall (gauge : BackgroundJobType → Int) (jobType : BackgroundJobType) :
    CallPhase → CallPhase → BackgroundJobType → Int
  | .insert, .commit => addTo gauge jobType 1
  | _, _ => gauge

/-- `decrement_active_background_jobs(job.job_type.value)` of the copy the session holds. -/
def afterWork (gauge : BackgroundJobType → Int) (exec : TaskExec) (event : TaskEvent) :
    BackgroundJobType → Int :=
  match exec.copy with
  | some job => if exec.decrements event then addTo gauge job.jobType (-1) else gauge
  | none => gauge

/-- The gauge after a step that led to `t`. -/
def GaugeRun.gaugeAfter (s : GaugeRun ι) (t : JobSystem ι) : JobOp ι → BackgroundJobType → Int
  | .request i => afterCall s.gauge (jobArgs requestHash requests i).jobType
      (s.system.calls.phase i) (t.calls.phase i)
  | .work n event =>
    match s.system.broker.deliveries[n]? with
    | some d => afterWork s.gauge d.2 event
    | none => s.gauge
  | _ => s.gauge

/-- A bulk job is completed, but its message stays unacknowledged. -/
def JobSystem.lostAfterCommit (s : JobSystem ι) (n : Nat) (now : Timestamp) :
    Option (JobSystem ι) :=
  match s.broker.deliveries[n]? with
  | some (message, .bulk (.items ..)) =>
    (s.work n (.bulk (.complete now none))).map fun t =>
      { t with broker := t.broker.send message }
  | _ => none

def GaugeRun.lostBeforeCommit (s : GaugeRun ι) (n : Nat) : Option (GaugeRun ι) :=
  match s.system.broker.deliveries[n]? with
  | some (_, .analysis (.analyzing job ..)) =>
    (s.system.broker.lose n).map fun broker =>
      { system := { s.system with broker := broker }, gauge := addTo s.gauge job.jobType (-1) }
  | _ => none

def gaugeMachine : Machine (GaugeRun ι) (GaugeOp ι) where
  step s
    | .job op => ((jobMachine jobId requestHash requests).step s.system op).map fun t =>
        { system := t, gauge := s.gaugeAfter requestHash requests t op }
    | .commitFails i =>
      match s.system.calls.phase i with
      | .commit => some { s with system := { s.system with calls := s.system.calls.abandon i } }
      | _ => none
    | .lostAfterCommit n now =>
      (s.system.lostAfterCommit n now).map fun t => { s with system := t }
    | .lostBeforeCommit n => s.lostBeforeCommit n

/-- What a step of an execution commits and what it decrements go together: it decrements and
ends an active job, or it commits a status that leaves the job as active as it was. -/
def Agrees (s : JobSystem ι) (exec : TaskExec) (event : TaskEvent) (row : BackgroundJob) : Prop :=
  if s.commits exec event row then
    ∀ status ∈ assignedStatus s.logs row exec event, exec.staleCompletion event = false ∧
      row.status.active = (exec.decrements event || status.active)
  else exec.decrements event = false

instance (s : JobSystem ι) (exec : TaskExec) (event : TaskEvent) (row : BackgroundJob) :
    Decidable (Agrees s exec event row) := by
  unfold Agrees
  infer_instance

/-- The condition on a step, where it starts: no transaction fails and no worker is lost on the
other side of its change of the gauge, and a job that is ended or set running is active. -/
def Balanced (s : GaugeRun ι) : GaugeOp ι → Prop
  | .job (.work n event) => ∀ d ∈ s.system.broker.deliveries[n]?, ∀ row ∈ s.system.calls.jobs,
    row.id = d.1.jobId → Agrees s.system d.2 event row
  | .job _ => True
  | .commitFails _ | .lostBeforeCommit _ => False
  | .lostAfterCommit n now => ∀ d ∈ s.system.broker.deliveries[n]?,
    ∀ row ∈ s.system.calls.jobs, row.id = d.1.jobId →
      d.2.staleCompletion (.bulk (.complete now none)) = true ∨ row.status.active = false

end Machine

/-- The gauge counts the active jobs, and the calls that have flushed one. -/
def GaugeRun.Accounted {ι : Type} (s : GaugeRun ι) : Prop :=
  ∀ jobType, s.gauge jobType = activeJobs jobType s.system.calls.rows

section Counting

theorem activeJobs_perm (jobType : BackgroundJobType) {rows rows' : List BackgroundJob}
    (same : rows.Perm rows') : activeJobs jobType rows = activeJobs jobType rows' :=
  same.countP_eq _

theorem activeJobs_append (jobType : BackgroundJobType) (rows rows' : List BackgroundJob) :
    activeJobs jobType (rows ++ rows') = activeJobs jobType rows + activeJobs jobType rows' :=
  List.countP_append

/-- One for a job that is active, zero for one that is not. -/
def BackgroundJob.weight (job : BackgroundJob) : Nat := if job.status.active then 1 else 0

theorem activeJobs_cons (jobType : BackgroundJobType) (row : BackgroundJob)
    (rows : List BackgroundJob) : activeJobs jobType (row :: rows) =
      activeJobs jobType rows + if row.jobType = jobType then row.weight else 0 := by
  rw [activeJobs, List.countP_cons, BackgroundJob.weight]
  by_cases same : row.jobType = jobType <;> simp [activeJobs, same]

theorem activeJobs_writeRow (jobType : BackgroundJobType) {rows : List BackgroundJob}
    {row row' : BackgroundJob} (ids : (rows.map (·.id)).Nodup) (hr : row ∈ rows)
    (sameId : row'.id = row.id) :
    activeJobs jobType (rows.map (writeRow row')) +
        (if row.jobType = jobType then row.weight else 0) =
      activeJobs jobType rows + if row'.jobType = jobType then row'.weight else 0 := by
  obtain ⟨before, after, rfl⟩ := List.append_of_mem hr
  rw [List.map_append, List.map_cons, List.nodup_append, List.nodup_cons] at ids
  have others : ∀ other ∈ before ++ after, writeRow row' other = other := by
    intro other ho
    refine if_neg fun same => ?_
    rw [sameId] at same
    rcases List.mem_append.mp ho with left | right
    · exact ids.2.2 other.id (List.mem_map_of_mem left) row.id List.mem_cons_self same
    · exact ids.2.1.1 (same ▸ List.mem_map_of_mem right)
  have left : before.map (writeRow row') = before :=
    (List.map_congr_left fun other ho => others other (List.mem_append_left _ ho)).trans
      (List.map_id' before)
  have right : after.map (writeRow row') = after :=
    (List.map_congr_left fun other ho => others other (List.mem_append_right _ ho)).trans
      (List.map_id' after)
  have own : writeRow row' row = row' := if_pos sameId.symm
  rw [List.map_append, List.map_cons, left, right, own, activeJobs_append, activeJobs_append,
    activeJobs_cons, activeJobs_cons]
  omega

end Counting

section Steps
variable [Platform] {row : BackgroundJob} {logs : LogTables} {analyses : AnalysisTables}

/-- The status after a step: the one it commits, unless the copy held it before. -/
def writtenStatus (exec ended : TaskExec) (event : TaskEvent) (logs : LogTables)
    (row : BackgroundJob) : BackgroundJobStatus :=
  if exec.staleCompletion event then row.status
  else (committedStatus ended (assignedStatus logs row exec event)).getD row.status

omit [Platform] in
theorem markRunning_writes (now : Timestamp) (celeryTaskId : Option Str) (job row : BackgroundJob) :
    (flushJob job (markRunning now celeryTaskId job) row).status =
      (if job.status = .running then none else some .running : Option BackgroundJobStatus).getD
        row.status := by
  change flushColumn job.status .running row.status = _
  unfold flushColumn
  simp only [eq_comm]
  split <;> rfl

theorem bulkStep_writes {exec : BulkExec} {event : BulkEvent} {outcome : BulkOutcome}
    (valid : (TaskExec.bulk exec).Valid row) (moved : bulkStep exec event row logs = some outcome) :
    outcome.row.status =
      writtenStatus (.bulk exec) (.bulk outcome.exec) (.bulk event) logs row := by
  cases bulkStep_moves moved with
  | loads =>
    unfold bulkLoad writtenStatus committedStatus
    split <;> rfl
  | breaks =>
    unfold writtenStatus
    rw [committedStatus_raised rfl]
    split <;> rfl
  | enters job now celeryTaskId =>
    obtain ⟨first, rest, entered⟩ := enterLoop_valid valid now celeryTaskId
    rw [entered, markRunning_writes]
    rfl
  | persists | fails => exact flushColumn_unchanged _ _
  | @completes job items index successCount failures now last =>
    change flushColumn job.status (bulkFinalStatus items successCount failures.length)
      row.status = _
    unfold flushColumn
    by_cases stale : job.status = bulkFinalStatus items successCount failures.length
    · rw [if_pos stale.symm]
      simp [writtenStatus, TaskExec.staleCompletion, stale]
    · rw [if_neg (Ne.symm stale)]
      simp [writtenStatus, TaskExec.staleCompletion, stale, committedStatus, TaskExec.ending,
        assignedStatus]

omit [Platform] in
theorem analysisStep_writes {rivals : List BackgroundJob} {exec : AnalysisExec}
    {event : AnalysisEvent} {outcome : AnalysisOutcome}
    (effect : AnalysisEffect row logs analyses rivals exec event outcome) :
    outcome.row.status =
      writtenStatus (.analysis exec) (.analysis outcome.exec) (.analysis event) logs row := by
  cases effect with
  | loads | skips | selects | completes | fails => rfl
  | breaks =>
    unfold writtenStatus
    rw [committedStatus_raised rfl]
    split <;> rfl
  | @prepares job now celeryTaskId groupId createdBy group user known free =>
    rw [markRunning_writes]
    simp [writtenStatus, TaskExec.staleCompletion, committedStatus, TaskExec.ending,
      assignedStatus, group, known]
  | misses group unknown =>
    simp [writtenStatus, TaskExec.staleCompletion, committedStatus, TaskExec.ending,
      assignedStatus, group, unknown, markFailed]

theorem taskStep_writes {exec : TaskExec} {event : TaskEvent}
    {others uncommitted : List BackgroundJob} {outcome : TaskOutcome} (valid : exec.Valid row)
    (moved : taskStep exec event row others uncommitted logs analyses = some outcome) :
    outcome.row.status = writtenStatus exec outcome.exec event logs row := by
  cases exec with
  | bulk exec =>
    cases event with
    | bulk event =>
      obtain ⟨done, stepped, rfl⟩ := Option.map_eq_some_iff.mp moved
      exact bulkStep_writes valid stepped
    | analysis => cases moved
  | analysis exec =>
    cases event with
    | analysis event =>
      obtain ⟨done, stepped, rfl⟩ := Option.map_eq_some_iff.mp moved
      exact analysisStep_writes (analysisStep_effect _ _ _ stepped)
    | bulk => cases moved

omit [Platform] in
/-- A step that decrements is the one that assigns the last status. -/
theorem decrements_assigns (logs : LogTables) {exec : TaskExec} {event : TaskEvent}
    (valid : exec.Valid row) (decrements : exec.decrements event = true) :
    ∃ status, assignedStatus logs row exec event = some status ∧ status.active = false := by
  unfold TaskExec.decrements at decrements
  split at decrements
  · rename_i job items index successCount failures now
    have nonempty := valid.looping job items index successCount failures rfl
    exact ⟨_, rfl, inactive_of_skips (bulkFinalStatus_skips nonempty _ _)⟩
  · exact ⟨_, rfl, rfl⟩
  · exact ⟨_, rfl, rfl⟩
  · cases decrements

omit [Platform] in
/-- A step decrements for the job of which the session holds a copy. -/
theorem copy_of_decrements {exec : TaskExec} {event : TaskEvent}
    (decrements : exec.decrements event = true) : ∃ job, exec.copy = some job := by
  unfold TaskExec.decrements at decrements
  split at decrements
  · exact ⟨_, rfl⟩
  · exact ⟨_, rfl⟩
  · exact ⟨_, rfl⟩
  · cases decrements

omit [Platform] in
theorem decrements_of_stale {exec : TaskExec} {event : TaskEvent}
    (stale : exec.staleCompletion event = true) : exec.decrements event = true := by
  unfold TaskExec.staleCompletion at stale
  split at stale
  · rfl
  · cases stale

/-- A step agrees with its decrement exactly if the activity of the row falls by it. -/
theorem agrees_iff {ι : Type} {s : JobSystem ι} {exec : TaskExec} {event : TaskEvent}
    {outcome : TaskOutcome} (valid : exec.Valid row)
    (stepped : s.outcome exec event row = some outcome) : Agrees s exec event row ↔
      outcome.row.weight + (if exec.decrements event then 1 else 0) = row.weight := by
  have written := taskStep_writes valid stepped
  have commits : s.commits exec event row = decide (outcome.exec.ending ≠ some .raised) := by
    simp [JobSystem.commits, stepped]
  unfold Agrees BackgroundJob.weight
  rw [commits, written, writtenStatus]
  by_cases raised : outcome.exec.ending = some .raised
  · rw [committedStatus_raised raised]
    cases exec.staleCompletion event <;> cases exec.decrements event <;> simp [raised]
  · rw [committedStatus_other raised, if_pos (decide_eq_true raised)]
    cases decrements : exec.decrements event with
    | true =>
      obtain ⟨status, assigns, ends⟩ := decrements_assigns s.logs valid decrements
      rw [assigns]
      cases exec.staleCompletion event <;> cases active : row.status.active <;> simp [active, ends]
    | false =>
      have fresh : exec.staleCompletion event = false := by
        refine Bool.eq_false_iff.mpr fun stale => ?_
        rw [decrements_of_stale stale] at decrements
        cases decrements
      rw [fresh]
      cases assignedStatus s.logs row exec event with
      | none => simp
      | some status =>
        cases row.status.active <;> cases active : status.active <;> simp [active]

end Steps

section Runs
variable {ι : Type} {jobId : ι → Str} {requestHash : List LogIngestRequest → Str}
  {requests : ι → JobRequest} [DecidableEq ι]

/-- The rows of the jobs, and of each call that has flushed its row once. -/
structure GaugeInvariant (jobId : ι → Str) (requestHash : List LogIngestRequest → Str)
    (requests : ι → JobRequest) (s : GaugeRun ι) : Prop where
  jobs : JobInvariant jobId requestHash requests s.system
  once : (s.system.calls.uncommitted.map (·.1)).Nodup

omit [DecidableEq ι] in
theorem gaugeInvariant_initial (logs : LogTables) (analyses : AnalysisTables) :
    GaugeInvariant jobId requestHash requests
      ({ system := { logs := logs, analyses := analyses } } : GaugeRun ι) where
  jobs := jobInvariant_initial logs analyses
  once := List.nodup_nil

theorem CallsInvariant.abandon {args : ι → CreateJobArgs} {s : JobCalls ι}
    (holds : CallsInvariant jobId args s) {i : ι} (atCommit : s.phase i = .commit) :
    CallsInvariant jobId args (s.abandon i) where
  ids := holds.ids
  apart := by
    have fewer : ∀ a ∈ (s.abandon i).rows, a ∈ s.rows := by
      intro a ha
      refine (List.mem_append.mp ha).elim (List.mem_append_left _) fun waiting => ?_
      obtain ⟨p, hp, rfl⟩ := List.mem_map.mp waiting
      exact List.mem_append_right _ (List.mem_map_of_mem (List.mem_filter.mp hp).1)
    exact fun a ha b hb => holds.apart a (fewer a ha) b (fewer b hb)
  waiting p hp := by
    rw [JobCalls.abandon, List.mem_filter] at hp
    have other : p.1 ≠ i := by simpa using hp.2
    have before := holds.waiting p hp.1
    exact ⟨(Function.update_of_ne other _ _).trans before.1, before.2⟩
  inserted k waiting := by
    have other : k ≠ i := by
      rintro rfl
      simp only [JobCalls.abandon, JobCalls.finish, JobCalls.goto, Function.update_self] at waiting
      cases waiting
    simp only [JobCalls.abandon, JobCalls.finish, JobCalls.goto,
      Function.update_of_ne other] at waiting
    exact List.mem_filter.mpr ⟨holds.inserted k waiting, by simpa using other⟩
  committed row hr := by
    obtain ⟨k, answer, seen, done, same⟩ := holds.committed row hr
    have other : k ≠ i := by
      rintro rfl
      rw [atCommit] at done
      cases done
    exact ⟨k, answer, seen, (Function.update_of_ne other _ _).trans done, same⟩
  answered k answer seen done := by
    by_cases same : k = i
    · subst same
      simp only [JobCalls.abandon, JobCalls.finish, JobCalls.goto, Function.update_self] at done
      cases done
      exact .broken
    · simp only [JobCalls.abandon, JobCalls.finish, JobCalls.goto,
        Function.update_of_ne same] at done
      exact holds.answered k answer seen done

theorem JobInvariant.abandoned {s : JobSystem ι}
    (holds : JobInvariant jobId requestHash requests s) {i : ι}
    (atCommit : s.calls.phase i = .commit) :
    JobInvariant jobId requestHash requests { s with calls := s.calls.abandon i } where
  calls := holds.calls.abandon atCommit
  ended k dispatched := by
    obtain ⟨answer, seen, done⟩ := holds.ended k dispatched
    have other : k ≠ i := by
      rintro rfl
      rw [atCommit] at done
      cases done
    exact ⟨answer, seen, (Function.update_of_ne other _ _).trans done⟩
  messages := holds.messages
  tasks := holds.tasks
  execs := holds.execs

/-- Steps that are not a call's or an execution's leave the jobs alone. -/
theorem step_calls [Platform] {s t : JobSystem ι} {op : JobOp ι}
    (moved : (jobMachine jobId requestHash requests).step s op = some t)
    (noCall : ∀ i, op ≠ .request i) (noWork : ∀ n event, op ≠ .work n event) :
    t.calls = s.calls := by
  cases op with
  | request i => exact absurd rfl (noCall i)
  | work n event => exact absurd rfl (noWork n event)
  | dispatch | dispatchRaises | deliver | redeliver | lose | due =>
    obtain ⟨_, -, rfl⟩ := Option.map_eq_some_iff.mp moved
    rfl
  | logs =>
    cases moved
    rfl

theorem uncommitted_perm {uncommitted : List (ι × BackgroundJob)} {i : ι} {row : BackgroundJob}
    (once : (uncommitted.map (·.1)).Nodup) (here : (i, row) ∈ uncommitted) :
    uncommitted.Perm ((i, row) :: uncommitted.filter fun p => p.1 ≠ i) := by
  obtain ⟨before, after, rfl⟩ := List.append_of_mem here
  rw [List.map_append, List.map_cons, List.nodup_append, List.nodup_cons] at once
  have left : before.filter (fun p => p.1 ≠ i) = before := by
    refine List.filter_eq_self.mpr fun p hp => decide_eq_true fun same => ?_
    exact once.2.2 p.1 (List.mem_map_of_mem hp) i List.mem_cons_self same
  have right : after.filter (fun p => p.1 ≠ i) = after := by
    refine List.filter_eq_self.mpr fun p hp => decide_eq_true fun same => ?_
    have own : p.1 ∈ after.map (·.1) := List.mem_map_of_mem hp
    exact once.2.1.1 (same ▸ own)
  rw [List.filter_append, left, List.filter_cons_of_neg (by simp), right]
  exact List.perm_middle

def callWeight (args : ι → CreateJobArgs) (i : ι) (jobType : BackgroundJobType) : Nat :=
  if (args i).jobType = jobType then 1 else 0

omit [DecidableEq ι] in
theorem activeJobs_callRow (args : ι → CreateJobArgs) (i : ι) (jobType : BackgroundJobType)
    (rows : List BackgroundJob) : activeJobs jobType (callRow jobId args i :: rows) =
      activeJobs jobType rows + callWeight args i jobType := by
  rw [activeJobs_cons]
  rfl

theorem activeJobs_publish {args : ι → CreateJobArgs} {calls : JobCalls ι} {i : ι}
    (once : (calls.uncommitted.map (·.1)).Nodup)
    (here : (i, callRow jobId args i) ∈ calls.uncommitted) (jobType : BackgroundJobType) :
    activeJobs jobType calls.rows = activeJobs jobType (calls.jobs ++
      (calls.uncommitted.filter fun p => p.1 ≠ i).map (·.2)) + callWeight args i jobType := by
  have split := (uncommitted_perm once here).map (·.2)
  rw [JobCalls.rows, activeJobs_perm jobType (split.append_left _), List.map_cons,
    activeJobs_perm jobType List.perm_middle, activeJobs_callRow]

theorem addTo_apply (gauge : BackgroundJobType → Int) (jobType : BackgroundJobType) (change : Int)
    (other : BackgroundJobType) : addTo gauge jobType change other =
      gauge other + if jobType = other then change else 0 := by
  unfold addTo
  by_cases same : other = jobType
  · rw [same, Function.update_self, if_pos rfl]
  · rw [Function.update_of_ne same, if_neg (Ne.symm same), add_zero]

/-- A call that does not get to its commit is not counted. -/
theorem afterCall_else (gauge : BackgroundJobType → Int) (jobType : BackgroundJobType)
    {before after : CallPhase} (other : before ≠ .insert ∨ after ≠ .commit) :
    afterCall gauge jobType before after = gauge := by
  unfold afterCall
  split
  · rcases other with no | no <;> exact absurd rfl no
  · rfl

/-- A step of `create_job` counts the row it flushes. -/
theorem call_accounted [Platform] {s : GaugeRun ι} {t : JobSystem ι}
    (holds : GaugeInvariant jobId requestHash requests s) (accounted : s.Accounted) {i : ι}
    (effect : CallEffect jobId (jobArgs requestHash requests) s.system.calls i t.calls)
    (jobType : BackgroundJobType) :
    s.gaugeAfter requestHash requests t (.request i) jobType = activeJobs jobType t.calls.rows := by
  have before := accounted jobType
  change afterCall s.gauge _ (s.system.calls.phase i) (t.calls.phase i) jobType = _
  generalize t.calls = calls at effect
  cases effect with
  | answers phase =>
    rw [afterCall_else _ _ (.inl (by rcases phase with now | now <;> rw [now] <;> rintro ⟨⟩))]
    exact before
  | passes phase =>
    rw [afterCall_else _ _ (.inl (by rcases phase with now | now <;> rw [now] <;> rintro ⟨⟩))]
    exact before
  | rejects =>
    have ended : (s.system.calls.finish i (.error dbapiError)).phase i ≠ .commit := by
      simp [JobCalls.finish, JobCalls.goto]
    rw [afterCall_else _ _ (.inr ended)]
    exact before
  | clashes phase =>
    have ended : (s.system.calls.finish i (.error integrityError)).phase i ≠ .commit := by
      simp [JobCalls.finish, JobCalls.goto]
    rw [afterCall_else _ _ (.inr ended)]
    exact before
  | inserts phase =>
    have atCommit : (s.system.calls.goto i .commit).phase i = .commit := Function.update_self ..
    change afterCall s.gauge _ (s.system.calls.phase i)
      ((s.system.calls.goto i .commit).phase i) jobType = _
    rw [phase, atCommit]
    change addTo s.gauge _ 1 jobType = activeJobs jobType (s.system.calls.jobs ++
      callRow jobId (jobArgs requestHash requests) i :: s.system.calls.uncommitted.map (·.2))
    rw [addTo_apply, before, activeJobs_perm jobType List.perm_middle, activeJobs_callRow,
      Nat.cast_add]
    refine congrArg _ ?_
    unfold callWeight
    split <;> rfl
  | publishes phase =>
    rw [afterCall_else _ _ (.inl (by rw [phase]; rintro ⟨⟩)), before,
      activeJobs_publish holds.once (holds.jobs.calls.inserted i phase)]
    refine congrArg _ ?_
    change _ = activeJobs jobType ((s.system.calls.jobs ++ [_]) ++ _)
    rw [List.append_assoc, List.singleton_append, activeJobs_perm jobType List.perm_middle,
      activeJobs_callRow]

omit [DecidableEq ι] in
/-- A row is written while the gauge of its type falls by some number: the gauge still counts
the active jobs exactly if the activity of the row falls by that number. -/
theorem written_accounted_iff {s : GaugeRun ι}
    (holds : GaugeInvariant jobId requestHash requests s) (accounted : s.Accounted)
    {row row' : BackgroundJob} (hr : row ∈ s.system.calls.jobs) (same : SameCall row' row)
    (fall : Nat) :
    (∀ jobType, s.gauge jobType - (if row.jobType = jobType then (fall : Int) else 0) =
      activeJobs jobType (s.system.calls.jobs.map (writeRow row') ++
        s.system.calls.uncommitted.map (·.2))) ↔ row'.weight + fall = row.weight := by
  have rows (jobType : BackgroundJobType) := activeJobs_writeRow jobType
    holds.jobs.calls.ids hr same.1
  have before (jobType : BackgroundJobType) := accounted jobType
  simp only [JobCalls.rows, activeJobs_append, same.2.1] at rows before
  simp only [activeJobs_append]
  constructor
  · intro after
    have own := after row.jobType
    have rows := rows row.jobType
    have before := before row.jobType
    rw [if_pos rfl] at own
    rw [if_pos rfl, if_pos rfl] at rows
    omega
  · intro falls jobType
    have rows := rows jobType
    have before := before jobType
    split
    all_goals rename_i type
    · rw [if_pos type, if_pos type] at rows
      omega
    · rw [if_neg type, if_neg type] at rows
      omega

omit [DecidableEq ι] in
theorem afterWork_apply {row : BackgroundJob} {exec : TaskExec} (valid : exec.Valid row)
    (gauge : BackgroundJobType → Int) (event : TaskEvent) (jobType : BackgroundJobType) :
    afterWork gauge exec event jobType = gauge jobType -
      if row.jobType = jobType then
        ((if exec.decrements event then 1 else 0 : Nat) : Int) else 0 := by
  unfold afterWork
  cases held : exec.copy with
  | some job =>
    rw [← (valid.copy job held).2.1]
    cases exec.decrements event with
    | true =>
      change addTo gauge job.jobType (-1) jobType = _
      rw [addTo_apply]
      split <;> rfl
    | false => simp
  | none =>
    have idle : exec.decrements event = false := by
      refine Bool.eq_false_iff.mpr fun decrements => ?_
      obtain ⟨job, copied⟩ := copy_of_decrements decrements
      rw [held] at copied
      cases copied
    simp [idle]

omit [DecidableEq ι] in
/-- A step of an execution keeps the count exactly if it agrees with its decrement. -/
theorem work_accounted_iff [Platform] {s : GaugeRun ι} {t : JobSystem ι}
    (holds : GaugeInvariant jobId requestHash requests s) (accounted : s.Accounted) {n : Nat}
    {event : TaskEvent} (moved : s.system.work n event = some t) :
    ({ system := t, gauge := s.gaugeAfter requestHash requests t (.work n event) } :
      GaugeRun ι).Accounted ↔ Balanced s (.job (.work n event)) := by
  obtain ⟨d, row, outcome, here, hr, sameId, stepped, ⟨calls, wrote, rfl⟩, spec⟩ :=
    holds.jobs.work_cases moved
  have valid := holds.jobs.execs d (List.mem_of_getElem? here) row hr sameId
  obtain ⟨rfl, -, -⟩ := write_rows wrote
  have agrees : Balanced s (.job (.work n event)) ↔ Agrees s.system d.2 event row := by
    constructor
    · exact fun balanced => balanced d here row hr sameId
    · intro agrees d' here' row' hr' sameId'
      obtain rfl : d' = d := Option.some.inj (here'.symm.trans here)
      obtain rfl := holds.jobs.eq_of_id hr' hr (sameId'.trans sameId.symm)
      exact agrees
  rw [agrees, agrees_iff valid stepped, ← written_accounted_iff holds accounted hr spec.same]
  refine forall_congr' fun jobType => ?_
  simp only [GaugeRun.gaugeAfter, here]
  rw [afterWork_apply valid]
  rfl

/-- A row that was flushed and counted is gone. -/
theorem commitFails_unaccounted {s : GaugeRun ι}
    (holds : GaugeInvariant jobId requestHash requests s) (accounted : s.Accounted) {i : ι}
    (atCommit : s.system.calls.phase i = .commit) :
    ¬ ({ s with system := { s.system with calls := s.system.calls.abandon i } } :
      GaugeRun ι).Accounted := by
  intro after
  let args := jobArgs requestHash requests
  have before := accounted (args i).jobType
  have here := holds.jobs.calls.inserted i atCommit
  rw [activeJobs_publish holds.once here, callWeight, if_pos rfl] at before
  have now := after (args i).jobType
  change s.gauge _ = (activeJobs _ (s.system.calls.jobs ++
    (s.system.calls.uncommitted.filter fun p => p.1 ≠ i).map (·.2)) : Int) at now
  omega

variable [Platform]

omit [DecidableEq ι] in
/-- The last commit of a bulk job is not followed by its decrement. -/
theorem lostAfterCommit_cases {s : JobSystem ι} {t : JobSystem ι} {n : Nat} {now : Timestamp}
    (moved : s.lostAfterCommit n now = some t) :
    ∃ message job items index successCount failures u,
      s.broker.deliveries[n]? =
        some (message, .bulk (.items job items index successCount failures)) ∧
      s.work n (.bulk (.complete now none)) = some u ∧
      t = { u with broker := u.broker.send message } := by
  unfold JobSystem.lostAfterCommit at moved
  split at moved
  · rename_i message job items index successCount failures here
    obtain ⟨u, worked, rfl⟩ := Option.map_eq_some_iff.mp moved
    exact ⟨message, job, items, index, successCount, failures, u, here, worked, rfl⟩
  · cases moved

omit [DecidableEq ι] in
/-- The last step of a bulk job ends it, unless its copy is stale. -/
theorem complete_weight {row : BackgroundJob} {job : BackgroundJob}
    {items : List LogIngestRequest} {index successCount : Nat}
    {failures : List BulkLogItemFailure} {now : Timestamp} {s : JobSystem ι}
    {outcome : TaskOutcome}
    (valid : (TaskExec.bulk (.items job items index successCount failures)).Valid row)
    (stepped : s.outcome (.bulk (.items job items index successCount failures))
      (.bulk (.complete now none)) row = some outcome) :
    outcome.row.weight + 0 = row.weight ↔
      (TaskExec.bulk (.items job items index successCount failures)).staleCompletion
        (.bulk (.complete now none)) = true ∨ row.status.active = false := by
  have spec := taskStep_spec valid stepped
  unfold BackgroundJob.weight
  cases stale : (TaskExec.bulk (.items job items index successCount failures)).staleCompletion
      (.bulk (.complete now none)) with
  | true => simp [(spec.stale stale).2]
  | false =>
    have ending : outcome.exec.ending = some .returned := by
      obtain ⟨done, moved, rfl⟩ := Option.map_eq_some_iff.mp stepped
      cases bulkStep_moves moved with
      | breaks _ failing => exact absurd rfl failing
      | completes => rfl
    rw [spec.returned ending stale]
    cases row.status.active <;> simp

omit [DecidableEq ι] in
theorem lostAfterCommit_accounted_iff {s : GaugeRun ι} {t : JobSystem ι}
    (holds : GaugeInvariant jobId requestHash requests s) (accounted : s.Accounted) {n : Nat}
    {now : Timestamp} (moved : s.system.lostAfterCommit n now = some t) :
    ({ s with system := t } : GaugeRun ι).Accounted ↔ Balanced s (.lostAfterCommit n now) := by
  obtain ⟨message, job, items, index, successCount, failures, u, here, worked, rfl⟩ :=
    lostAfterCommit_cases moved
  obtain ⟨d, row, outcome, here', hr, sameId, stepped, ⟨calls, wrote, rfl⟩, spec⟩ :=
    holds.jobs.work_cases worked
  obtain rfl := Option.some.inj (here.symm.trans here')
  have valid := holds.jobs.execs _ (List.mem_of_getElem? here) row hr sameId
  obtain ⟨rfl, -, -⟩ := write_rows wrote
  have balanced : Balanced s (.lostAfterCommit n now) ↔
      outcome.row.weight + 0 = row.weight := by
    rw [complete_weight valid stepped]
    constructor
    · exact fun balanced => balanced _ here row hr sameId
    · intro ends d' here'' row' hr' sameId'
      obtain rfl : d' = _ := Option.some.inj (here''.symm.trans here)
      obtain rfl := holds.jobs.eq_of_id hr' hr (sameId'.trans sameId.symm)
      exact ends
  rw [balanced, ← written_accounted_iff holds accounted hr spec.same]
  refine forall_congr' fun jobType => ?_
  simp only [Nat.cast_zero, ite_self, sub_zero]
  rfl

omit [DecidableEq ι] [Platform] in
theorem lostBeforeCommit_unaccounted {s t : GaugeRun ι} (accounted : s.Accounted) {n : Nat}
    (moved : s.lostBeforeCommit n = some t) : ¬ t.Accounted := by
  unfold GaugeRun.lostBeforeCommit at moved
  split at moved
  · rename_i job latest logCount here
    obtain ⟨broker, -, rfl⟩ := Option.map_eq_some_iff.mp moved
    intro after
    have now := after job.jobType
    have before := accounted job.jobType
    change addTo s.gauge job.jobType (-1) job.jobType = _ at now
    rw [addTo_apply, if_pos rfl, before] at now
    change _ = (activeJobs job.jobType s.system.calls.rows : Int) at now
    omega
  · cases moved

/-- A step keeps the count exactly if it is balanced. -/
theorem accounted_iff {s t : GaugeRun ι} {op : GaugeOp ι}
    (holds : GaugeInvariant jobId requestHash requests s) (accounted : s.Accounted)
    (moved : (gaugeMachine jobId requestHash requests).step s op = some t) :
    t.Accounted ↔ Balanced s op := by
  cases op with
  | commitFails i =>
    change (match s.system.calls.phase i with | .commit => _ | _ => none) = some t at moved
    split at moved
    · rename_i atCommit
      cases moved
      exact iff_of_false (commitFails_unaccounted holds accounted atCommit) not_false
    · cases moved
  | lostAfterCommit n now =>
    obtain ⟨u, lost, rfl⟩ := Option.map_eq_some_iff.mp moved
    exact lostAfterCommit_accounted_iff holds accounted lost
  | lostBeforeCommit n =>
    exact iff_of_false (lostBeforeCommit_unaccounted accounted moved) not_false
  | job op =>
    obtain ⟨u, stepped, rfl⟩ := Option.map_eq_some_iff.mp moved
    have kept (noCall : ∀ i, op ≠ .request i) (noWork : ∀ n event, op ≠ .work n event)
        (same : s.gaugeAfter requestHash requests u op = s.gauge) :
        ({ system := u, gauge := s.gaugeAfter requestHash requests u op } :
          GaugeRun ι).Accounted := by
      intro jobType
      change s.gaugeAfter requestHash requests u op jobType = activeJobs jobType u.calls.rows
      rw [same, step_calls stepped noCall noWork]
      exact accounted jobType
    cases op with
    | request i =>
      change (if _ then _ else _) = _ at stepped
      split at stepped
      · obtain ⟨calls, called, rfl⟩ := Option.map_eq_some_iff.mp stepped
        exact iff_of_true (call_accounted holds accounted (call_effect called)) trivial
      · cases stepped
    | work n event => exact work_accounted_iff holds accounted stepped
    | dispatch | dispatchRaises | deliver | redeliver | lose | due | logs =>
      exact iff_of_true (kept (by simp) (by simp) rfl) trivial

/-- A call flushes its row once. -/
theorem uncommitted_once {s t : JobSystem ι}
    (holds : JobInvariant jobId requestHash requests s)
    (once : (s.calls.uncommitted.map (·.1)).Nodup) {op : JobOp ι}
    (moved : (jobMachine jobId requestHash requests).step s op = some t) :
    (t.calls.uncommitted.map (·.1)).Nodup := by
  have fewer (i : ι) : ((s.calls.uncommitted.filter fun p => p.1 ≠ i).map (·.1)).Nodup :=
    once.sublist (List.filter_sublist.map _)
  cases op with
  | request i =>
    change (if _ then _ else _) = _ at moved
    split at moved
    · obtain ⟨calls, called, rfl⟩ := Option.map_eq_some_iff.mp moved
      cases call_effect called with
      | answers | passes | rejects | clashes => exact once
      | inserts phase =>
        refine List.nodup_cons.mpr ⟨fun before => ?_, once⟩
        obtain ⟨p, hp, rfl⟩ := List.mem_map.mp before
        have waiting := (holds.calls.waiting p hp).1
        rw [phase] at waiting
        cases waiting
      | publishes => exact fewer i
    · cases moved
  | work n event =>
    obtain ⟨d, row, outcome, here, hr, sameId, stepped, ⟨calls, wrote, rfl⟩, spec⟩ :=
      holds.work_cases moved
    obtain ⟨rfl, -, -⟩ := write_rows wrote
    exact once
  | dispatch | dispatchRaises | deliver | redeliver | lose | due | logs =>
    rw [step_calls moved (by simp) (by simp)]
    exact once

theorem GaugeInvariant.next {s t : GaugeRun ι} {op : GaugeOp ι}
    (holds : GaugeInvariant jobId requestHash requests s) (fresh : Function.Injective jobId)
    (moved : (gaugeMachine jobId requestHash requests).step s op = some t) :
    GaugeInvariant jobId requestHash requests t := by
  cases op with
  | job op =>
    obtain ⟨u, stepped, rfl⟩ := Option.map_eq_some_iff.mp moved
    exact ⟨holds.jobs.next fresh stepped, uncommitted_once holds.jobs holds.once stepped⟩
  | commitFails i =>
    change (match s.system.calls.phase i with | .commit => _ | _ => none) = some t at moved
    split at moved
    · rename_i atCommit
      cases moved
      exact ⟨holds.jobs.abandoned atCommit, holds.once.sublist (List.filter_sublist.map _)⟩
    · cases moved
  | lostAfterCommit n now =>
    obtain ⟨u, lost, rfl⟩ := Option.map_eq_some_iff.mp moved
    obtain ⟨message, _, _, _, _, _, v, here, worked, rfl⟩ := lostAfterCommit_cases lost
    have stepped : (jobMachine jobId requestHash requests).step s.system
        (.work n (.bulk (.complete now none))) = some v := worked
    have once := uncommitted_once holds.jobs holds.once stepped
    refine ⟨(holds.jobs.worked worked).sent ?_, once⟩
    obtain ⟨row, hr, sameId, type⟩ := holds.jobs.messages message (mem_messages here)
    obtain ⟨d, old, outcome, -, ho, -, -, ⟨calls, wrote, rfl⟩, spec⟩ :=
      holds.jobs.work_cases worked
    obtain ⟨rfl, -, -⟩ := write_rows wrote
    by_cases own : row.id = outcome.row.id
    · have sameRow := holds.jobs.eq_of_id hr ho (own.trans spec.same.1)
      exact ⟨outcome.row, (mem_writeRow ⟨old, ho, spec.same.1.symm⟩).mpr (.inl rfl),
        own.symm.trans sameId, spec.same.2.1.trans (sameRow ▸ type)⟩
    · exact ⟨row, (mem_writeRow ⟨old, ho, spec.same.1.symm⟩).mpr (.inr ⟨hr, own⟩), sameId, type⟩
  | lostBeforeCommit n =>
    change s.lostBeforeCommit n = some t at moved
    unfold GaugeRun.lostBeforeCommit at moved
    split at moved
    · obtain ⟨broker, lost, rfl⟩ := Option.map_eq_some_iff.mp moved
      have stepped : (jobMachine jobId requestHash requests).step s.system (.lose n) =
          some { s.system with broker := broker } := by
        change (s.system.broker.lose n).map _ = _
        rw [lost]
        rfl
      exact ⟨holds.jobs.next fresh stepped, holds.once⟩
    · cases moved

end Runs

section Gauge
variable {ι : Type} [DecidableEq ι] [Platform]

omit [DecidableEq ι] [Platform] in
/-- No call that is over has a row that is not committed. -/
theorem quiet_rows {jobId : ι → Str} {requestHash : List LogIngestRequest → Str}
    {requests : ι → JobRequest} {s : JobSystem ι}
    (holds : JobInvariant jobId requestHash requests s) (quiet : s.Quiet) :
    s.calls.rows = s.calls.jobs := by
  have none : s.calls.uncommitted = [] := by
    refine List.eq_nil_iff_forall_not_mem.mpr fun p hp => ?_
    have waiting := (holds.calls.waiting p hp).1
    rcases quiet.1 p.1 with idle | ⟨answer, seen, ended⟩
    · rw [idle] at waiting
      cases waiting
    · rw [ended] at waiting
      cases waiting
  rw [JobCalls.rows, none, List.map_nil, List.append_nil]

/-- In a run of balanced steps the gauge counts the active jobs whenever nothing is in progress;
and the steps of a run are balanced exactly if after every one of them the gauge counts the
active jobs, with those that a call has flushed and not yet committed. -/
theorem gauge_counts_active_jobs (jobId : ι → Str)
    (requestHash : List LogIngestRequest → Str) (requests : ι → JobRequest)
    (fresh : Function.Injective jobId) (logs : LogTables) (analyses : AnalysisTables)
    (ops : List (GaugeOp ι)) (s : GaugeRun ι)
    (ran : (gaugeMachine jobId requestHash requests).run
      { system := { logs := logs, analyses := analyses } } ops = some s) :
    (Meets (gaugeMachine jobId requestHash requests) Balanced
        { system := { logs := logs, analyses := analyses } } ops → s.system.Quiet →
      ∀ jobType, s.gauge jobType = activeJobs jobType s.system.calls.jobs) ∧
    ((∀ before after t, ops = before ++ after →
        (gaugeMachine jobId requestHash requests).run
          { system := { logs := logs, analyses := analyses } } before = some t → t.Accounted) ↔
      Meets (gaugeMachine jobId requestHash requests) Balanced
        { system := { logs := logs, analyses := analyses } } ops) := by
  have prefixes := prefixes_iff_meets
    (M := gaugeMachine jobId requestHash requests) (G := Balanced)
    (I := GaugeInvariant jobId requestHash requests) (P := GaugeRun.Accounted)
    (fun _ _ _ holds moved => holds.next fresh moved)
    (fun _ _ _ holds accounted moved => accounted_iff holds accounted moved)
    (gaugeInvariant_initial logs analyses) (fun _ => rfl) ran
  refine ⟨fun meets quiet jobType => ?_, prefixes⟩
  have holds : GaugeInvariant jobId requestHash requests s :=
    run_invariant (fun _ _ _ holds moved => GaugeInvariant.next holds fresh moved)
      (gaugeInvariant_initial logs analyses) ran
  have accounted := prefixes.mpr meets ops [] s (List.append_nil ops).symm ran
  rw [accounted jobType, quiet_rows holds.jobs quiet]

end Gauge

section Sample

instance : (phase : CallPhase) →
    Decidable (phase = .selectByKey ∨ ∃ answer seen, phase = .finished answer seen)
  | .selectByKey => isTrue (.inl rfl)
  | .finished answer seen => isTrue (.inr ⟨answer, seen, rfl⟩)
  | .selectByScope | .insert | .commit => isFalse (by simp)

instance {n : Nat} (s : JobSystem (Fin n)) : Decidable s.Quiet :=
  inferInstanceAs (Decidable ((∀ i, s.calls.phase i = .selectByKey ∨ ∃ answer seen,
    s.calls.phase i = .finished answer seen) ∧ s.broker.deliveries = []))

instance [Platform] {ι : Type} (s : GaugeRun ι) : (op : GaugeOp ι) → Decidable (Balanced s op)
  | .job (.work n event) => inferInstanceAs (Decidable
      (∀ d ∈ s.system.broker.deliveries[n]?, ∀ row ∈ s.system.calls.jobs,
        row.id = d.1.jobId → Agrees s.system d.2 event row))
  | .job (.request _) | .job (.dispatch _) | .job (.dispatchRaises _) | .job (.deliver _)
  | .job (.redeliver _) | .job (.lose _) | .job (.due _) | .job (.logs _) => isTrue trivial
  | .commitFails _ | .lostBeforeCommit _ => isFalse not_false
  | .lostAfterCommit n now => inferInstanceAs (Decidable
      (∀ d ∈ s.system.broker.deliveries[n]?, ∀ row ∈ s.system.calls.jobs, row.id = d.1.jobId →
        d.2.staleCompletion (.bulk (.complete now none)) = true ∨ row.status.active = false))

abbrev analyzeOnceGauge : Machine (GaugeRun (Fin 1)) (GaugeOp (Fin 1)) :=
  @gaugeMachine _ _ asciiPlatform analyzeOnceId (fun _ => []) analyzeOnce

theorem gauge_counts_active_jobs_analyzeWithRetry :
    ∃ s, analyzeOnceGauge.run { system := analyzeOnceStart } (analyzeWithRetry.map .job) = some s ∧
      s.system.Quiet ∧ ∀ jobType, s.gauge jobType = activeJobs jobType s.system.calls.jobs := by
  have quiet : ((analyzeOnceGauge.run { system := analyzeOnceStart }
      (analyzeWithRetry.map .job)).all fun s => decide s.system.Quiet) = true := by decide
  obtain ⟨s, ran⟩ : ∃ s, analyzeOnceGauge.run { system := analyzeOnceStart }
      (analyzeWithRetry.map .job) = some s := Option.isSome_iff_exists.mp (by decide)
  rw [ran, Option.all_some, decide_eq_true_eq] at quiet
  have injective : Function.Injective analyzeOnceId := fun i k _ => Subsingleton.elim i k
  exact ⟨s, ran, quiet, (@gauge_counts_active_jobs _ _ asciiPlatform analyzeOnceId (fun _ => [])
    analyzeOnce injective { errorGroups := [sampleGroup] } {} (analyzeWithRetry.map .job) s
    ran).1 (by decide) quiet⟩

/-- The message is delivered again, and both deliveries record a failed analysis. -/
def failedTwice : List (GaugeOp (Fin 1)) :=
  failedThenRedelivered.map .job ++
    [.job (.work 0 (.analysis (.prepare 4 none none none))),
      .job (.work 0 (.analysis (.select none))),
      .job (.work 0 (.analysis (.finish 5 6 (.error "timeout".toList) none none)))]

/-- The failed job is decremented twice. -/
theorem gauge_counts_active_jobs_fails :
    ¬ ∀ ops s, analyzeOnceGauge.run { system := analyzeOnceStart } ops = some s →
      s.system.Quiet → ∀ jobType, s.gauge jobType = activeJobs jobType s.system.calls.jobs := by
  intro counts
  have final : (analyzeOnceGauge.run { system := analyzeOnceStart } failedTwice).map (fun s =>
      (decide s.system.Quiet, s.gauge .errorGroupAnalysis,
        activeJobs .errorGroupAnalysis s.system.calls.jobs)) = some (true, -1, 0) := by decide
  obtain ⟨s, ran, final⟩ := Option.map_eq_some_iff.mp final
  rw [Prod.mk.injEq, Prod.mk.injEq, decide_eq_true_eq] at final
  have same := counts failedTwice s ran final.1 .errorGroupAnalysis
  rw [final.2.1, final.2.2] at same
  cases same

end Sample

end LogLens
