import LogLens.JobLifecycle

/-! No analysis stays pending once the jobs of its group have ended: in the runs where
an execution that commits its first transaction finds no pending analysis of the group
and none that is dated later, and leaves its job running. -/

namespace LogLens
open LabelledMachine MessageBroker

def BackgroundJob.analyzes (groupId : Nat) (job : BackgroundJob) : Prop :=
  job.jobType = .errorGroupAnalysis ∧ job.payload.groupId = some groupId

instance (groupId : Nat) (job : BackgroundJob) : Decidable (job.analyzes groupId) :=
  inferInstanceAs (Decidable (_ ∧ _))

/-- No analysis of a group without an active job is pending. -/
def NoOrphanedAnalyses {ι : Type} (s : JobSystem ι) : Prop :=
  ∀ groupId, (∀ row ∈ s.calls.jobs, row.analyzes groupId → row.status.active = false) →
    ∀ a ∈ s.analyses.analyses, a.errorGroupId = groupId → a.status ≠ .pending

section Condition
variable {ι : Type} [Platform]

/-- The first transaction of an execution, when it commits, finds no pending analysis of the
group; where it adds one, no analysis of the group is dated later, and the job is active
before or is set running. -/
def FindsNonePending (s : JobSystem ι) : JobOp ι → Prop
  | .work n (.analysis (.prepare now celeryTaskId startError endError)) =>
    ∀ d ∈ s.broker.deliveries[n]?, ∀ row ∈ s.calls.jobs, row.id = d.1.jobId →
      s.commits d.2 (.analysis (.prepare now celeryTaskId startError endError)) row = true →
      ∀ groupId ∈ row.payload.groupId,
        (∀ a ∈ s.analyses.analyses, a.errorGroupId = groupId → a.status ≠ .pending) ∧
        ((s.logs.errorGroups.any fun g => g.id = groupId) = true →
          (∀ a ∈ s.analyses.analyses, a.errorGroupId = groupId → a.createdAt ≤ now) ∧
          (row.status.active = true ∨ ∀ job ∈ d.2.copy, job.status ≠ .running))
  | _ => True

end Condition

def TaskExec.heldAnalysis : TaskExec → Option ErrorAnalysis
  | .analysis (.prepared _ created) => some created
  | .analysis (.analyzing _ latest _) => some latest
  | _ => none

def TaskExec.worksOn (groupId : Nat) (exec : TaskExec) : Bool :=
  exec.heldAnalysis.any fun held => held.errorGroupId = groupId

/-- A group has no pending analysis and no execution past its first commit, or one pending
analysis, its newest, with an active job and at most one such execution, which holds it. -/
inductive GroupState (jobs : List BackgroundJob) (analyses : List ErrorAnalysis)
    (execs : List (TaskMessage × TaskExec)) (groupId : Nat) : Prop
  | settled : (∀ a ∈ analyses, a.errorGroupId = groupId → a.status ≠ .pending) →
    (∀ e ∈ execs, e.2.worksOn groupId = false) → GroupState jobs analyses execs groupId
  | working {a : ErrorAnalysis} : a ∈ analyses → a.errorGroupId = groupId → a.status = .pending →
    (∀ b ∈ analyses, b.errorGroupId = groupId →
      b = a ∨ (b.status ≠ .pending ∧ b.sortKey < a.sortKey)) →
    (∃ row ∈ jobs, row.analyzes groupId ∧ row.status.active = true) →
    execs.countP (fun e => e.2.worksOn groupId) ≤ 1 →
    (∀ e ∈ execs, ∀ held ∈ e.2.heldAnalysis, held.errorGroupId = groupId →
      held.id = a.id ∧ held.status = .pending) → GroupState jobs analyses execs groupId

structure OrphanInvariant {ι : Type} (s : JobSystem ι) : Prop where
  tables : s.analyses.Valid
  groups : ∀ e ∈ s.broker.deliveries, ∀ held ∈ e.2.heldAnalysis, ∀ row ∈ s.calls.jobs,
    row.id = e.1.jobId → row.payload.groupId = some held.errorGroupId
  states : ∀ groupId, GroupState s.calls.jobs s.analyses.analyses s.broker.deliveries groupId

namespace GroupState
variable {jobs jobs' : List BackgroundJob} {analyses analyses' : List ErrorAnalysis}
  {execs execs' : List (TaskMessage × TaskExec)} {groupId : Nat}

theorem worksOn_iff {exec : TaskExec} : exec.worksOn groupId = true ↔
    ∃ held ∈ exec.heldAnalysis, held.errorGroupId = groupId := by
  simp [TaskExec.worksOn, Option.any_eq_true]

/-- Nothing of the group changes, except that executions may end. -/
theorem frame (state : GroupState jobs analyses execs groupId)
    (same : ∀ a, a.errorGroupId = groupId → (a ∈ analyses' ↔ a ∈ analyses))
    (active : ∀ row ∈ jobs, row.analyzes groupId → row.status.active = true →
      ∃ row' ∈ jobs', row'.analyzes groupId ∧ row'.status.active = true)
    (fewer : ∀ e ∈ execs', e.2.worksOn groupId = true →
      ∃ old ∈ execs, old.2.heldAnalysis = e.2.heldAnalysis)
    (count : execs'.countP (fun e => e.2.worksOn groupId) ≤
      execs.countP fun e => e.2.worksOn groupId) :
    GroupState jobs' analyses' execs' groupId := by
  cases state with
  | settled none idle =>
    refine .settled (fun a ha own => none a ((same a own).mp ha) own) fun e he => ?_
    refine Bool.eq_false_iff.mpr fun works => ?_
    obtain ⟨old, ho, held⟩ := fewer e he works
    rw [TaskExec.worksOn, ← held, ← TaskExec.worksOn, idle old ho] at works
    cases works
  | working ha own pending newest row one holds =>
    obtain ⟨row, hr, analyzes, running⟩ := row
    refine .working ((same _ own).mpr ha) own pending
      (fun b hb group => newest b ((same b group).mp hb) group) (active row hr analyzes running)
      (count.trans one) fun e he held here group => ?_
    obtain ⟨old, ho, same⟩ := fewer e he (worksOn_iff.mpr ⟨held, here, group⟩)
    exact holds old ho held (same ▸ here) group

theorem noOrphan (state : GroupState jobs analyses execs groupId)
    (ended : ∀ row ∈ jobs, row.analyzes groupId → row.status.active = false) :
    ∀ a ∈ analyses, a.errorGroupId = groupId → a.status ≠ .pending := by
  cases state with
  | settled none idle => exact none
  | working ha own pending newest row one holds =>
    obtain ⟨row, hr, analyzes, running⟩ := row
    rw [ended row hr analyzes] at running
    cases running

theorem perm (state : GroupState jobs analyses execs groupId) (same : execs'.Perm execs) :
    GroupState jobs analyses execs' groupId :=
  state.frame (by simp) (fun row hr analyzes running => ⟨row, hr, analyzes, running⟩)
    (fun e he _ => ⟨e, same.mem_iff.mp he, rfl⟩) (same.countP_eq _).le

variable {d : TaskMessage × TaskExec} {rest : List (TaskMessage × TaskExec)}
  {latest : ErrorAnalysis}

/-- The only execution past its first commit holds the newest analysis of the group. -/
theorem worker (state : GroupState jobs analyses (d :: rest) latest.errorGroupId)
    (held : d.2.heldAnalysis = some latest) :
    ∃ a ∈ analyses, a.errorGroupId = latest.errorGroupId ∧ a.id = latest.id ∧
      latest.status = .pending ∧
      (∀ b ∈ analyses, b.errorGroupId = latest.errorGroupId →
        b = a ∨ (b.status ≠ .pending ∧ b.sortKey < a.sortKey)) ∧
      ∀ e ∈ rest, e.2.worksOn latest.errorGroupId = false := by
  have works : d.2.worksOn latest.errorGroupId = true := worksOn_iff.mpr ⟨latest, held, rfl⟩
  cases state with
  | settled none idle =>
    rw [idle d List.mem_cons_self] at works
    cases works
  | @working a ha own pending newest row one holds =>
    have mine := holds d List.mem_cons_self latest held rfl
    rw [List.countP_cons, if_pos works] at one
    have others : rest.countP (fun e => e.2.worksOn latest.errorGroupId) = 0 := by omega
    refine ⟨a, ha, own, mine.1.symm, mine.2, newest, fun e he => ?_⟩
    simpa using List.countP_eq_zero.mp others e he

/-- A pending analysis is added where none is pending. -/
theorem prepares (state : GroupState jobs analyses execs groupId)
    (none : ∀ a ∈ analyses, a.errorGroupId = groupId → a.status ≠ .pending)
    {now : Timestamp} {createdBy id : Nat}
    (dated : ∀ a ∈ analyses, a.errorGroupId = groupId → a.createdAt ≤ now)
    (fresh : ∀ a ∈ analyses, a.id < id) (fewer : ∀ e ∈ rest, e ∈ execs)
    {row : BackgroundJob} (hr : row ∈ jobs') (analyzes : row.analyzes groupId)
    (running : row.status.active = true) (message : TaskMessage) (job : BackgroundJob) :
    GroupState jobs' (analyses ++ [pendingAnalysis now groupId createdBy id])
      ((message, .analysis (.prepared job (pendingAnalysis now groupId createdBy id))) :: rest)
      groupId := by
  have idle : ∀ e ∈ rest, e.2.worksOn groupId = false := by
    intro e he
    cases state with
    | settled _ idle => exact idle e (fewer e he)
    | working ha own pending => exact absurd pending (none _ ha own)
  have count : rest.countP (fun e => e.2.worksOn groupId) = 0 :=
    List.countP_eq_zero.mpr fun e he => by simp [idle e he]
  refine .working (a := pendingAnalysis now groupId createdBy id) (by simp) rfl rfl
    (fun b hb own => ?_) ⟨row, hr, analyzes, running⟩ ?_ fun e he held here own => ?_
  · cases List.mem_append.mp hb with
    | inl old =>
      exact .inr ⟨none b old own, sortKey_pendingAnalysis (dated b old own) (fresh b old) _ _⟩
    | inr new => exact .inl (List.mem_singleton.mp new)
  · rw [List.countP_cons, count]
    split <;> omega
  · cases List.mem_cons.mp he with
    | inl own' =>
      rw [own'] at here
      cases here
      exact ⟨rfl, rfl⟩
    | inr other =>
      have works : e.2.worksOn groupId = true := worksOn_iff.mpr ⟨held, here, own⟩
      rw [idle e other] at works
      cases works

end GroupState

namespace GroupState
variable {jobs jobs' : List BackgroundJob} {t : AnalysisTables} {d : TaskMessage × TaskExec}
  {rest : List (TaskMessage × TaskExec)} {latest new : ErrorAnalysis}

/-- The analysis an execution holds is no longer pending once its outcome is recorded. -/
theorem finishes (state : GroupState jobs t.analyses (d :: rest) latest.errorGroupId)
    (held : d.2.heldAnalysis = some latest) (done : new.status ≠ .pending) :
    GroupState jobs' (t.edit latest.id (flushAnalysis latest new)).analyses rest
      latest.errorGroupId := by
  obtain ⟨a, ha, own, sameId, pending, newest, idle⟩ := state.worker held
  refine .settled (fun b hb group => ?_) idle
  cases mem_edit.mp hb with
  | inl edited =>
    obtain ⟨old, ho, -, rfl⟩ := edited
    change flushColumn latest.status new.status old.status ≠ .pending
    rw [flushColumn_changed (by rw [pending]; exact done)]
    exact done
  | inr kept =>
    cases newest b kept.1 group with
    | inl same => exact absurd (same ▸ sameId) kept.2
    | inr older => exact older.1

theorem edit_other (state : GroupState jobs t.analyses (d :: rest) latest.errorGroupId)
    (held : d.2.heldAnalysis = some latest) (tables : t.Valid)
    {b : ErrorAnalysis} (other : b.errorGroupId ≠ latest.errorGroupId) :
    b ∈ (t.edit latest.id (flushAnalysis latest new)).analyses ↔ b ∈ t.analyses := by
  obtain ⟨a, ha, own, sameId, -⟩ := state.worker held
  have only : ∀ c ∈ t.analyses, c.id = latest.id → c.errorGroupId = latest.errorGroupId := by
    intro c hc same
    rw [tables.eq_of_id hc ha (same.trans sameId.symm)]
    exact own
  rw [mem_edit]
  constructor
  · rintro (⟨c, hc, same, rfl⟩ | ⟨hb, -⟩)
    · exact absurd (only c hc same) other
    · exact hb
  · intro hb
    exact .inr ⟨hb, fun same => other (only b hb same)⟩

end GroupState

theorem OrphanInvariant.noOrphans {ι : Type} {s : JobSystem ι} (holds : OrphanInvariant s) :
    NoOrphanedAnalyses s := fun groupId ended => (holds.states groupId).noOrphan ended

theorem analysisEffect_payload {row : BackgroundJob} {logs : LogTables} {t : AnalysisTables}
    {rivals : List BackgroundJob} {exec : AnalysisExec} {event : AnalysisEvent}
    {outcome : AnalysisOutcome} (effect : AnalysisEffect row logs t rivals exec event outcome) :
    outcome.row.payload = row.payload := by
  cases effect with
  | loads | skips | breaks | selects => rfl
  | prepares | misses | completes | fails => exact flushColumn_unchanged _ _

section Steps
variable {ι : Type} {jobId : ι → Str} {requestHash : List LogIngestRequest → Str}
  {requests : ι → JobRequest} {s t : JobSystem ι} {d : TaskMessage × TaskExec} {n : Nat}
  {row row' : BackgroundJob}

/-- The row of a delivery is of the kind its execution works on. -/
theorem delivery_jobType (valid : JobInvariant jobId requestHash requests s)
    (hd : d ∈ s.broker.deliveries) (hr : row ∈ s.calls.jobs) (sameId : row.id = d.1.jobId) :
    row.jobType = d.2.task.jobType := by
  obtain ⟨known, hk, sameKnown, type⟩ := valid.messages d.1 (mem_messages_of_mem hd)
  rw [valid.eq_of_id hr hk (sameId.trans sameKnown.symm), type, valid.tasks d hd]

/-- An active job of a group stays when a row is written that, if it is the job's, stays active. -/
theorem active_kept {groupId : Nat} (valid : JobInvariant jobId requestHash requests s)
    (hr : row ∈ s.calls.jobs) (sameId : row'.id = row.id)
    (forward : row.analyzes groupId → row.status.active = true →
      row'.analyzes groupId ∧ row'.status.active = true) :
    ∀ old ∈ s.calls.jobs, old.analyzes groupId → old.status.active = true →
      ∃ new ∈ s.calls.jobs.map (writeRow row'), new.analyzes groupId ∧
        new.status.active = true := by
  intro old ho analyzes running
  have here : ∃ old ∈ s.calls.jobs, old.id = row'.id := ⟨row, hr, sameId.symm⟩
  by_cases mine : old.id = row'.id
  · have sameRow := valid.eq_of_id ho hr (mine.trans sameId)
    exact ⟨row', (mem_writeRow here).mpr (.inl rfl),
      forward (sameRow ▸ analyzes) (sameRow ▸ running)⟩
  · exact ⟨old, (mem_writeRow here).mpr (.inr ⟨ho, mine⟩), analyzes, running⟩

/-- A step after which the execution holds no analysis, and that leaves those of the group. -/
theorem GroupState.idle {groupId : Nat} {jobs jobs' : List BackgroundJob}
    {analyses analyses' : List ErrorAnalysis} {exec : TaskExec}
    (state : GroupState jobs analyses s.broker.deliveries groupId)
    (here : s.broker.deliveries[n]? = some d)
    (same : ∀ a, a.errorGroupId = groupId → (a ∈ analyses' ↔ a ∈ analyses))
    (active : ∀ row ∈ jobs, row.analyzes groupId → row.status.active = true →
      ∃ row' ∈ jobs', row'.analyzes groupId ∧ row'.status.active = true)
    (held : exec.worksOn groupId = false) :
    GroupState jobs' analyses' (settle s.broker n d.1 exec).deliveries groupId := by
  have fewer : (s.broker.deliveries.eraseIdx n).countP (fun e => e.2.worksOn groupId) ≤
      s.broker.deliveries.countP fun e => e.2.worksOn groupId :=
    (List.eraseIdx_sublist _ _).countP_le
  refine state.frame same active (fun e he works => ?_) ?_
  · cases JobInvariant.mem_settle_deliveries he with
    | inl old => exact ⟨e, old, rfl⟩
    | inr own =>
      rw [own, held] at works
      cases works
  · cases ended : exec.ending with
    | none =>
      rw [(settle_working here ended).countP_eq, List.countP_cons, held]
      simpa using fewer
    | some how =>
      rw [settle_ended ended]
      exact fewer

theorem GroupState.record {groupId : Nat} {tables : AnalysisTables} {latest new : ErrorAnalysis}
    {exec : TaskExec} (valid : JobInvariant jobId requestHash requests s)
    (state : ∀ groupId, GroupState s.calls.jobs tables.analyses s.broker.deliveries groupId)
    (distinct : tables.Valid)
    (here : s.broker.deliveries[n]? = some d) (held : d.2.heldAnalysis = some latest)
    (hr : row ∈ s.calls.jobs) (sameId : row'.id = row.id)
    (own : row.payload.groupId = some latest.errorGroupId) (done : new.status ≠ .pending)
    (ended : exec.ending = some .returned) (idle : exec.worksOn groupId = false) :
    GroupState (s.calls.jobs.map (writeRow row'))
      (tables.edit latest.id (flushAnalysis latest new)).analyses
      (settle s.broker n d.1 exec).deliveries groupId := by
  have perm := deliveries_perm here
  have before := (state latest.errorGroupId).perm perm.symm
  by_cases mine : groupId = latest.errorGroupId
  · rw [mine, settle_ended ended]
    exact before.finishes held done
  · refine (state groupId).idle here (fun a group => ?_) ?_ idle
    · exact before.edit_other held distinct (group ▸ mine)
    refine active_kept valid hr sameId fun analyzes => absurd ?_ mine
    exact Option.some.inj (analyzes.2.symm.trans own)

/-- A step after which the execution still holds the analysis it held. -/
theorem GroupState.goesOn {groupId : Nat} {jobs jobs' : List BackgroundJob}
    {analyses : List ErrorAnalysis} {exec : TaskExec}
    (state : GroupState jobs analyses s.broker.deliveries groupId)
    (here : s.broker.deliveries[n]? = some d)
    (active : ∀ row ∈ jobs, row.analyzes groupId → row.status.active = true →
      ∃ row' ∈ jobs', row'.analyzes groupId ∧ row'.status.active = true)
    (working : exec.ending = none) (held : exec.heldAnalysis = d.2.heldAnalysis) :
    GroupState jobs' analyses (settle s.broker n d.1 exec).deliveries groupId := by
  have works : exec.worksOn groupId = d.2.worksOn groupId := by
    rw [TaskExec.worksOn, held, TaskExec.worksOn]
  refine (state.frame (by simp) active (fun e he _ => ?_) ?_).perm (settle_working here working)
  · cases List.mem_cons.mp he with
    | inl new => exact ⟨d, List.mem_of_getElem? here, by rw [new, held]⟩
    | inr old => exact ⟨e, List.mem_of_mem_eraseIdx old, rfl⟩
  · rw [(deliveries_perm here).countP_eq, List.countP_cons, List.countP_cons]
    simp [works]

/-- The newest analysis of the group of an execution is the one it holds. -/
theorem GroupState.newest_own {jobs : List BackgroundJob} {analyses : List ErrorAnalysis}
    {created latest : ErrorAnalysis}
    (state : GroupState jobs analyses s.broker.deliveries created.errorGroupId)
    (here : s.broker.deliveries[n]? = some d) (held : d.2.heldAnalysis = some created)
    (newest : getLatestForGroup created.errorGroupId analyses = some latest) :
    latest.id = created.id := by
  obtain ⟨a, ha, group, sameId, -, others, -⟩ :=
    (state.perm (deliveries_perm here).symm).worker held
  have found := getLatestForGroup_newest ha group fun b hb own =>
    (others b hb own).imp_right And.right
  rw [newest, Option.some.injEq] at found
  rw [found, sameId]

/-- `mark_running` leaves the row active, unless its copy of a terminal row says RUNNING. -/
theorem markRunning_active {job : BackgroundJob} (now : Timestamp) (celeryTaskId : Option Str)
    (active : row.status.active = true ∨ job.status ≠ .running) :
    (flushJob job (markRunning now celeryTaskId job) row).status.active = true := by
  by_cases waiting : job.status = .running
  · have before := active.resolve_right fun other => other waiting
    simpa only [flushJob, markRunning, waiting, flushColumn_unchanged] using before
  · have written : (flushJob job (markRunning now celeryTaskId job) row).status = .running :=
      flushColumn_changed (Ne.symm waiting) _
    rw [written]
    rfl

/-- A step of an execution keeps the state of every group. -/
theorem GroupState.step {groupId : Nat} {logs : LogTables} {tables : AnalysisTables}
    {rivals : List BackgroundJob} {message : TaskMessage} {exec : AnalysisExec}
    {event : AnalysisEvent} {outcome : AnalysisOutcome}
    (valid : JobInvariant jobId requestHash requests s)
    (state : ∀ groupId, GroupState s.calls.jobs tables.analyses s.broker.deliveries groupId)
    (distinct : tables.Valid)
    (here : s.broker.deliveries[n]? = some (message, .analysis exec)) (hr : row ∈ s.calls.jobs)
    (type : row.jobType = .errorGroupAnalysis) (same : SameCall outcome.row row)
    (own : ∀ held ∈ (TaskExec.analysis exec).heldAnalysis,
      row.payload.groupId = some held.errorGroupId)
    (effect : AnalysisEffect row logs tables rivals exec event outcome)
    (finds : ∀ now celeryTaskId startError endError,
      event = .prepare now celeryTaskId startError endError →
      (TaskExec.analysis outcome.exec).ending ≠ some .raised → ∀ groupId ∈ row.payload.groupId,
        (∀ a ∈ tables.analyses, a.errorGroupId = groupId → a.status ≠ .pending) ∧
        ((logs.errorGroups.any fun g => g.id = groupId) = true →
          (∀ a ∈ tables.analyses, a.errorGroupId = groupId → a.createdAt ≤ now) ∧
          (row.status.active = true ∨ ∀ job ∈ (TaskExec.analysis exec).copy,
            job.status ≠ .running))) :
    GroupState (s.calls.jobs.map (writeRow outcome.row)) outcome.tables.analyses
      (settle s.broker n message (.analysis outcome.exec)).deliveries groupId := by
  have payload := analysisEffect_payload effect
  -- the job of a group stays active where the step leaves it active
  have kept (forward : row.analyzes groupId → row.status.active = true →
      outcome.row.status.active = true) :=
    active_kept valid hr same.1 fun (analyzes : row.analyzes groupId) running =>
      ⟨⟨same.2.1.trans type, payload ▸ analyzes.2⟩, forward analyzes running⟩
  cases effect with
  | loads | skips => exact (state groupId).idle here (by simp) (kept fun _ running => running) rfl
  | breaks analyses =>
    exact (state groupId).idle here (by simp [analyses]) (kept fun _ running => running) rfl
  | @prepares job now celeryTaskId group createdBy named user known free =>
    obtain ⟨none, more⟩ := finds _ _ _ _ rfl (by simp [TaskExec.ending]) group named
    obtain ⟨dated, active⟩ := more known
    by_cases mine : groupId = group
    · have running := markRunning_active now celeryTaskId
        (active.imp_right fun copies => copies job rfl)
      rw [mine]
      exact ((state group).prepares none dated distinct.fresh
        (fun e he => List.mem_of_mem_eraseIdx he)
        ((mem_writeRow ⟨row, hr, same.1.symm⟩).mpr (.inl rfl))
        ⟨same.2.1.trans type, payload ▸ named⟩ running message _).perm (settle_working here rfl)
    · refine (state groupId).idle here (fun a own => ?_) (kept fun analyzes => ?_) ?_
      · have other : a ≠ pendingAnalysis now group createdBy tables.nextAnalysisId := by
          rintro rfl
          exact mine own.symm
        simp [createPendingAnalysis, other]
      · exact absurd (Option.some.inj (analyzes.2.symm.trans named)) mine
      · simpa [TaskExec.worksOn, TaskExec.heldAnalysis, pendingAnalysis] using Ne.symm mine
  | @misses job now celeryTaskId group named unknown =>
    obtain ⟨none, -⟩ := finds _ _ _ _ rfl (by simp [TaskExec.ending]) group named
    by_cases mine : groupId = group
    · rw [mine, @settle_ended _ .returned rfl]
      cases state group with
      | settled _ idle => exact .settled none fun e he => idle e (List.mem_of_mem_eraseIdx he)
      | working ha own pending => exact absurd pending (none _ ha own)
    · refine (state groupId).idle here (by simp) (kept fun analyzes => ?_) rfl
      exact absurd (Option.some.inj (analyzes.2.symm.trans named)) mine
  | @selects job created latest logCount newest =>
    rw [if_pos ((state created.errorGroupId).newest_own here rfl newest)]
    exact (state groupId).goesOn here (kept fun _ running => running) rfl rfl
  | @completes job latest =>
    exact GroupState.record (d := (message, _)) valid state distinct here rfl hr same.1
      (own latest rfl) (by simp [completeAnalysis]) rfl rfl
  | @fails job latest =>
    exact GroupState.record (d := (message, _)) valid state distinct here rfl hr same.1
      (own latest rfl) (by simp [failAnalysis]) rfl rfl

theorem start_heldAnalysis (task : TaskName) : task.start.heldAnalysis = none := by
  cases task <;> rfl

/-- The row of an execution past its first commit is of a group. -/
theorem held_jobType (valid : JobInvariant jobId requestHash requests s)
    (hd : d ∈ s.broker.deliveries) (hr : row ∈ s.calls.jobs) (sameId : row.id = d.1.jobId)
    {held : ErrorAnalysis} (own : d.2.heldAnalysis = some held) :
    row.jobType = .errorGroupAnalysis := by
  rw [delivery_jobType valid hd hr sameId]
  cases exec : d.2 with
  | bulk exec' =>
    rw [exec] at own
    cases own
  | analysis => rfl

/-- An execution holds an analysis of the group of its job. -/
theorem analysisEffect_held {row : BackgroundJob} {logs : LogTables} {tables : AnalysisTables}
    {rivals : List BackgroundJob} {exec : AnalysisExec} {event : AnalysisEvent}
    {outcome : AnalysisOutcome} (effect : AnalysisEffect row logs tables rivals exec event outcome)
    (own : ∀ held ∈ (TaskExec.analysis exec).heldAnalysis,
      row.payload.groupId = some held.errorGroupId) :
    ∀ held ∈ (TaskExec.analysis outcome.exec).heldAnalysis,
      row.payload.groupId = some held.errorGroupId := by
  intro held here
  cases effect with
  | loads | skips | breaks | misses | completes | fails => cases here
  | prepares named =>
    cases here
    exact named
  | @selects job created latest logCount newest =>
    cases here
    have named := own created rfl
    split
    · exact named
    · rw [(getLatestForGroup_some newest).2.1]
      exact named

/-- The executions after a step still work on the groups of their jobs. -/
theorem settle_groups {exec : TaskExec} (valid : JobInvariant jobId requestHash requests s)
    (groups : ∀ e ∈ s.broker.deliveries, ∀ held ∈ e.2.heldAnalysis, ∀ row ∈ s.calls.jobs,
      row.id = e.1.jobId → row.payload.groupId = some held.errorGroupId)
    (hr : row ∈ s.calls.jobs) (sameId : row.id = d.1.jobId) (same : SameCall row' row)
    (payload : row.jobType = .errorGroupAnalysis → row'.payload = row.payload)
    (own : ∀ held ∈ exec.heldAnalysis, row'.payload.groupId = some held.errorGroupId) :
    ∀ e ∈ (settle s.broker n d.1 exec).deliveries, ∀ held ∈ e.2.heldAnalysis,
      ∀ r ∈ s.calls.jobs.map (writeRow row'), r.id = e.1.jobId →
        r.payload.groupId = some held.errorGroupId := by
  intro e he held mine r hr' named
  have rows := (mem_writeRow ⟨row, hr, same.1.symm⟩).mp hr'
  cases JobInvariant.mem_settle_deliveries he with
  | inl old =>
    cases rows with
    | inl written =>
      have known : row.id = e.1.jobId := by rw [← same.1, ← written, named]
      rw [written, payload (held_jobType valid old hr known mine)]
      exact groups e old held mine row hr known
    | inr other => exact groups e old held mine r other.1 named
  | inr new =>
    rw [new] at mine named
    cases rows with
    | inl written =>
      rw [written]
      exact own held mine
    | inr other => exact absurd (named.trans (sameId.symm.trans same.1.symm)) other.2

theorem orphanInvariant_initial (logs : LogTables) :
    OrphanInvariant ({ logs := logs } : JobSystem ι) where
  tables := ⟨List.nodup_nil, by simp⟩
  groups := by simp
  states groupId := .settled (by simp) (by simp)

variable [DecidableEq ι] [Platform]

omit [DecidableEq ι] [Platform] in
/-- Executions end or start afresh. -/
theorem OrphanInvariant.keeps (holds : OrphanInvariant s)
    {started : List (TaskMessage × TaskExec)} (jobs : t.calls.jobs = s.calls.jobs)
    (analyses : t.analyses = s.analyses) (starts : ∀ e ∈ started, e.2 = e.1.task.start)
    (fewer : t.broker.deliveries.Sublist (s.broker.deliveries ++ started)) :
    OrphanInvariant t := by
  -- a started execution holds no analysis
  have old : ∀ e ∈ t.broker.deliveries, ∀ held ∈ e.2.heldAnalysis, e ∈ s.broker.deliveries := by
    intro e he held own
    cases List.mem_append.mp (fewer.subset he) with
    | inl before => exact before
    | inr new =>
      rw [starts e new, start_heldAnalysis] at own
      cases own
  refine ⟨analyses ▸ holds.tables, ?_, fun groupId => ?_⟩
  · intro e he held own row hr sameId
    exact holds.groups e (old e he held own) held own row (jobs ▸ hr) sameId
  · refine (holds.states groupId).frame (by simp [analyses])
      (fun row hr analyzes running => ⟨row, jobs ▸ hr, analyzes, running⟩)
      (fun e he works => ?_) ?_
    · obtain ⟨held, own, -⟩ := GroupState.worksOn_iff.mp works
      exact ⟨e, old e he held own, rfl⟩
    · have none : started.countP (fun e => e.2.worksOn groupId) = 0 := by
        refine List.countP_eq_zero.mpr fun e he => ?_
        simp [TaskExec.worksOn, starts e he, start_heldAnalysis]
      have count := fewer.countP_le (p := fun e => e.2.worksOn groupId)
      rwa [List.countP_append, none, Nat.add_zero] at count

omit [DecidableEq ι] [Platform] in
/-- A row is added to the jobs; every execution works on one that was there before. -/
theorem OrphanInvariant.creates (valid : JobInvariant jobId requestHash requests s)
    {calls : JobCalls ι} (after : JobInvariant jobId requestHash requests { s with calls := calls })
    (holds : OrphanInvariant s) {job : BackgroundJob} (added : calls.jobs = s.calls.jobs ++ [job]) :
    OrphanInvariant { s with calls := calls } := by
  have kept {row : BackgroundJob} (hr : row ∈ s.calls.jobs) : row ∈ calls.jobs := by
    rw [added]
    exact List.mem_append_left _ hr
  refine ⟨holds.tables, fun e he held own row hr sameId => ?_, fun groupId => ?_⟩
  · obtain ⟨known, hk, sameKnown, -⟩ := valid.messages e.1 (mem_messages_of_mem he)
    rw [after.eq_of_id hr (kept hk) (sameId.trans sameKnown.symm)]
    exact holds.groups e he held own known hk sameKnown
  · exact (holds.states groupId).frame (by simp)
      (fun row hr analyzes running => ⟨row, kept hr, analyzes, running⟩)
      (fun e he _ => ⟨e, he, rfl⟩) (le_refl _)

omit [DecidableEq ι] in
theorem OrphanInvariant.worksBulk (valid : JobInvariant jobId requestHash requests s)
    (holds : OrphanInvariant s) {message : TaskMessage} {exec : BulkExec} {event : TaskEvent}
    {outcome : TaskOutcome} {calls : JobCalls ι}
    (here : s.broker.deliveries[n]? = some (message, .bulk exec)) (hr : row ∈ s.calls.jobs)
    (sameId : row.id = message.jobId) (stepped : s.outcome (.bulk exec) event row = some outcome)
    (same : SameCall outcome.row row)
    (written : calls.jobs = s.calls.jobs.map (writeRow outcome.row)) :
    OrphanInvariant { s with
      calls := calls
      broker := settle s.broker n message outcome.exec
      logs := outcome.logs
      analyses := outcome.analyses } := by
  cases event with
  | analysis event => cases stepped
  | bulk event =>
    obtain ⟨done, moved, rfl⟩ := Option.map_eq_some_iff.mp stepped
    have other : row.jobType ≠ .errorGroupAnalysis := by
      have type := delivery_jobType valid (List.mem_of_getElem? here) hr sameId
      simp [type, TaskExec.task, TaskName.jobType]
    refine ⟨holds.tables, ?_, fun groupId => ?_⟩ <;> simp only [written]
    · exact settle_groups (d := (message, .bulk exec)) valid holds.groups hr sameId same
        (fun own => absurd own other) (by rintro held ⟨⟩)
    · refine (holds.states groupId).idle here (by simp) ?_ rfl
      exact active_kept valid hr same.1 fun analyzes => absurd analyzes.1 other

omit [DecidableEq ι] in
theorem OrphanInvariant.worksAnalysis (valid : JobInvariant jobId requestHash requests s)
    (holds : OrphanInvariant s) {message : TaskMessage} {exec : AnalysisExec}
    {event : TaskEvent} {outcome : TaskOutcome} {calls : JobCalls ι}
    (finds : FindsNonePending s (.work n event))
    (here : s.broker.deliveries[n]? = some (message, .analysis exec)) (hr : row ∈ s.calls.jobs)
    (sameId : row.id = message.jobId)
    (stepped : s.outcome (.analysis exec) event row = some outcome)
    (same : SameCall outcome.row row)
    (written : calls.jobs = s.calls.jobs.map (writeRow outcome.row)) :
    OrphanInvariant { s with
      calls := calls
      broker := settle s.broker n message outcome.exec
      logs := outcome.logs
      analyses := outcome.analyses } := by
  cases event with
  | bulk event => cases stepped
  | analysis event =>
    have committed := stepped
    obtain ⟨done, moved, rfl⟩ := Option.map_eq_some_iff.mp stepped
    have hd := List.mem_of_getElem? here
    have step := analysisStep_effect _ _ _ moved
    have payload := analysisEffect_payload step
    have own : ∀ held ∈ (TaskExec.analysis exec).heldAnalysis,
        row.payload.groupId = some held.errorGroupId := fun held mine =>
      holds.groups _ hd held mine row hr sameId
    refine ⟨step.valid holds.tables, ?_, fun groupId => ?_⟩ <;> simp only [written]
    · refine settle_groups (d := (message, .analysis exec)) valid holds.groups hr sameId same
        (fun _ => payload) ?_
      rw [payload]
      exact analysisEffect_held step own
    · refine GroupState.step valid holds.states holds.tables here hr
        (delivery_jobType valid hd hr sameId) same own step ?_
      rintro now celeryTaskId startError endError rfl ended
      refine finds _ here row hr sameId ?_
      unfold JobSystem.commits
      rw [committed]
      simpa using ended

omit [DecidableEq ι] in
theorem OrphanInvariant.next (valid : JobInvariant jobId requestHash requests s)
    (after : JobInvariant jobId requestHash requests t) (holds : OrphanInvariant s)
    {op : JobOp ι} (finds : FindsNonePending s op)
    (effect : JobEffect jobId requestHash requests s op t) : OrphanInvariant t := by
  cases effect with
  | keeps started idle jobs analyses starts fewer => exact holds.keeps jobs analyses starts fewer
  | creates added => exact holds.creates valid after added
  | @works n event d row outcome calls here hr sameId stepped spec written =>
    obtain ⟨message, exec⟩ := d
    cases exec with
    | bulk exec => exact holds.worksBulk valid here hr sameId stepped spec.same written
    | analysis exec =>
      exact holds.worksAnalysis valid finds here hr sameId stepped spec.same written

/-- While every first transaction finds the analyses of its group ended, no analysis is orphaned. -/
theorem no_orphaned_analyses (jobId : ι → Str) (requestHash : List LogIngestRequest → Str)
    (requests : ι → JobRequest) (fresh : Function.Injective jobId) (s : JobSystem ι)
    (reached : Reach (jobMachine jobId requestHash requests) FindsNonePending
      (fun s => ∃ logs, s = { logs := logs }) s) : NoOrphanedAnalyses s := by
  have both : JobInvariant jobId requestHash requests s ∧ OrphanInvariant s := by
    refine reached.invariant
      (I := fun u => JobInvariant jobId requestHash requests u ∧ OrphanInvariant u) ?_
      fun u t op holds finds moved => ?_
    · rintro u ⟨logs, rfl⟩
      exact ⟨jobInvariant_initial logs {}, orphanInvariant_initial logs⟩
    · have after := holds.1.next fresh moved
      exact ⟨after, holds.2.next holds.1 after finds (job_effect holds.1 moved)⟩
  exact both.2.noOrphans

end Steps

section Sample

instance [Platform] {ι : Type} (s : JobSystem ι) :
    (op : JobOp ι) → Decidable (FindsNonePending s op)
  | .work n (.analysis (.prepare now celeryTaskId startError endError)) =>
    inferInstanceAs (Decidable
      (∀ d ∈ s.broker.deliveries[n]?, ∀ row ∈ s.calls.jobs, row.id = d.1.jobId →
        s.commits d.2 (.analysis (.prepare now celeryTaskId startError endError)) row = true →
        ∀ groupId ∈ row.payload.groupId,
          (∀ a ∈ s.analyses.analyses, a.errorGroupId = groupId → a.status ≠ .pending) ∧
          ((s.logs.errorGroups.any fun g => g.id = groupId) = true →
            (∀ a ∈ s.analyses.analyses, a.errorGroupId = groupId → a.createdAt ≤ now) ∧
            (row.status.active = true ∨ ∀ job ∈ d.2.copy, job.status ≠ .running))))
  | .work _ (.analysis .load) | .work _ (.analysis (.select _))
  | .work _ (.analysis (.finish ..)) | .work _ (.bulk _)
  | .request _ | .dispatch _ | .dispatchRaises _ | .deliver _ | .redeliver _ | .lose _ | .due _
  | .logs _ => isTrue trivial

theorem no_orphaned_analyses_analyzeWithRetry :
    ∃ s, analyzeOnceMachine.run analyzeOnceStart analyzeWithRetry = some s ∧
      s.analyses.analyses.map (·.status) = [.failed] ∧ NoOrphanedAnalyses s := by
  obtain ⟨s, ran⟩ : ∃ s, analyzeOnceMachine.run analyzeOnceStart analyzeWithRetry = some s :=
    Option.isSome_iff_exists.mp (by decide)
  have ended : (analyzeOnceMachine.run analyzeOnceStart analyzeWithRetry).map
      (fun s => s.analyses.analyses.map (·.status)) = some [.failed] := by decide
  rw [ran, Option.map_some, Option.some.injEq] at ended
  have injective : Function.Injective analyzeOnceId := fun i k _ => Subsingleton.elim i k
  have start : Reach analyzeOnceMachine (@FindsNonePending _ asciiPlatform)
      (fun s => ∃ logs, s = { logs := logs }) analyzeOnceStart :=
    .start ⟨{ errorGroups := [sampleGroup] }, rfl⟩
  have reached := start.of_run (by decide) ran
  exact ⟨s, ran, ended, @no_orphaned_analyses _ _ asciiPlatform analyzeOnceId (fun _ => [])
    analyzeOnce injective s reached⟩

/-- The worker is lost during the call of the provider, and the second execution ends the job. -/
def lostThenRedelivered : List (JobOp (Fin 1)) :=
  [.request onlyRequest, .request onlyRequest, .request onlyRequest, .request onlyRequest,
    .dispatch onlyRequest, .deliver (analyzeMessage 0),
    .work 0 (.analysis .load), .work 0 (.analysis (.prepare 1 none none none)),
    .work 0 (.analysis (.select none)), .lose 0,
    .deliver (analyzeMessage 0), .work 0 (.analysis .load),
    .work 0 (.analysis (.prepare 2 none none none)), .work 0 (.analysis (.select none)),
    .work 0 (.analysis (.finish 3 4 (.error "timeout".toList) none none))]

/-- The analysis of the lost execution is pending for ever. -/
theorem no_orphaned_analyses_fails :
    ¬ ∀ ops s, analyzeOnceMachine.run analyzeOnceStart ops = some s → NoOrphanedAnalyses s := by
  intro fine
  obtain ⟨s, ran⟩ : ∃ s, analyzeOnceMachine.run analyzeOnceStart lostThenRedelivered = some s :=
    Option.isSome_iff_exists.mp (by decide)
  have orphaned : (analyzeOnceMachine.run analyzeOnceStart lostThenRedelivered).all (fun s =>
      (s.calls.jobs.all fun row => !row.status.active) &&
        s.analyses.analyses.any fun a => a.errorGroupId = 1 && a.status = .pending) = true := by
    decide
  rw [ran, Option.all_some, Bool.and_eq_true, List.all_eq_true, List.any_eq_true] at orphaned
  obtain ⟨ended, a, ha, pending⟩ := orphaned
  simp only [Bool.and_eq_true, decide_eq_true_eq] at pending
  exact fine lostThenRedelivered s ran 1 (fun row hr _ => by simpa using ended row hr) a ha
    pending.1 pending.2

end Sample

end LogLens
