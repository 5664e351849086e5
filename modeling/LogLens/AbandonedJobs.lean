import LogLens.JobSystem

/-! Every active job has a message in flight or a request that is to dispatch it, in
exactly the runs where no dispatch and no last attempt fails while its job is active
and nothing else is in flight for it. -/

namespace LogLens
open LabelledMachine MessageBroker

section Property
variable {ι : Type} (jobId : ι → Str) (requestHash : List LogIngestRequest → Str)
  (requests : ι → JobRequest)

/-- The request committed its job and has yet to dispatch it. -/
def AwaitsDispatch (s : JobSystem ι) (i : ι) : Prop :=
  s.undispatched i = some (callRow jobId (jobArgs requestHash requests) i)

/-- One of the messages is of the job, or its request has yet to dispatch it. -/
def Attended (s : JobSystem ι) (messages : List TaskMessage) (id : Str) : Prop :=
  (∃ m ∈ messages, m.jobId = id) ∨ ∃ i, jobId i = id ∧ AwaitsDispatch jobId requestHash requests s i

structure NoAbandonedJob (s : JobSystem ι) : Prop where
  attended : ∀ row ∈ s.calls.jobs, row.status.active = true →
    Attended jobId requestHash requests s s.broker.messages row.id
  /-- `create_analysis_job` answers ConflictError only while the job of the scope is attended. -/
  unlocked : ∀ id groupId currentUser,
    (createJob id (analysisJobArgs groupId currentUser) s.calls.jobs).1 =
      .error (.app scopeConflict) →
    ∃ scope row, (analysisJobArgs groupId currentUser).scopeKey = some scope ∧
      row ∈ s.calls.jobs ∧ row.activeIn .errorGroupAnalysis scope = true ∧
      Attended jobId requestHash requests s s.broker.messages row.id

/-- The step fails at the last attempt, or completes the job without writing its status. -/
def JobSystem.givesUp [Platform] (s : JobSystem ι) (d : TaskMessage × TaskExec) (event : TaskEvent)
    (row : BackgroundJob) : Bool :=
  d.2.staleCompletion event ||
    (maxRetries ≤ d.1.retries &&
      (s.outcome d.2 event row).any fun outcome => outcome.exec.ending = some .raised)

/-- A dispatch that fails, and an execution that gives up, leave an active job to other work. -/
def KeepsWork [Platform] (s : JobSystem ι) : JobOp ι → Prop
  | .dispatchRaises i => AwaitsDispatch jobId requestHash requests s i →
    ∀ row ∈ s.calls.jobs, row.id = jobId i → row.status.active = true →
      ∃ m ∈ s.broker.messages, m.jobId = jobId i
  | .work n event => ∀ d ∈ s.broker.deliveries[n]?, ∀ row ∈ s.calls.jobs, row.id = d.1.jobId →
    row.status.active = true → s.givesUp d event row = true →
      Attended jobId requestHash requests s (s.broker.others n) row.id
  | _ => True

end Property

section Exactness
variable {ι : Type} {jobId : ι → Str} {requestHash : List LogIngestRequest → Str}
  {requests : ι → JobRequest} {s t : JobSystem ι}

theorem noAbandonedJob_iff : NoAbandonedJob jobId requestHash requests s ↔
    ∀ row ∈ s.calls.jobs, row.status.active = true →
      Attended jobId requestHash requests s s.broker.messages row.id := by
  refine ⟨fun holds => holds.attended, fun attended => ⟨attended, ?_⟩⟩
  intro id groupId currentUser refused
  have byKey : lookupKey (analysisJobArgs groupId currentUser) s.calls.jobs = none := rfl
  unfold createJob at refused
  cases byScope : lookupScope (analysisJobArgs groupId currentUser) s.calls.jobs with
  | none =>
    simp only [byKey, byScope] at refused
    split at refused
    · cases refused
    · split at refused <;> cases refused
  | some answer =>
    obtain ⟨scope, own, ⟨-, row, hr, active, -⟩ | ⟨-, rejected⟩⟩ := lookupScope_some byScope
    · exact ⟨scope, row, own, hr, active, attended row hr (activeIn_iff.mp active).2.2⟩
    · simp only [byKey, byScope, rejected] at refused
      cases refused

theorem Attended.mono {messages messages' : List TaskMessage} {id : Str}
    (attended : Attended jobId requestHash requests s messages id)
    (kept : ∀ m ∈ messages, m.jobId = id → ∃ m' ∈ messages', m'.jobId = id)
    (awaiting : ∀ i, jobId i = id → AwaitsDispatch jobId requestHash requests s i →
      Attended jobId requestHash requests t messages' id) :
    Attended jobId requestHash requests t messages' id := by
  obtain ⟨m, hm, same⟩ | ⟨i, same, awaits⟩ := attended
  · exact .inl (kept m hm same)
  · exact awaiting i same awaits

/-- A broker that loses no message. -/
theorem NoAbandonedJob.brokered (fine : NoAbandonedJob jobId requestHash requests s)
    {broker : Broker TaskMessage TaskExec} (kept : ∀ m ∈ s.broker.messages, m ∈ broker.messages) :
    NoAbandonedJob jobId requestHash requests { s with broker := broker } :=
  noAbandonedJob_iff.mpr fun row hr active =>
    (fine.attended row hr active).mono (fun m hm same => ⟨m, kept m hm, same⟩)
      fun i same awaits => .inr ⟨i, same, awaits⟩

variable [DecidableEq ι]

/-- Requests still await their dispatch after a step of a call. -/
theorem AwaitsDispatch.called {i k : ι} {calls : JobCalls ι}
    (effect : CallEffect jobId (jobArgs requestHash requests) s.calls i calls)
    (awaits : AwaitsDispatch jobId requestHash requests s k) :
    AwaitsDispatch jobId requestHash requests { s with calls := calls } k := by
  obtain ⟨-, seen, done⟩ := JobInvariant.undispatched_some awaits
  unfold AwaitsDispatch JobSystem.undispatched at *
  rwa [call_phase effect (.inr ⟨_, seen, done⟩)]

/-- The end of a dispatch leaves the other callers waiting. -/
theorem awaits_endDispatch {i k : ι} :
    AwaitsDispatch jobId requestHash requests (s.endDispatch i) k ↔
      k ≠ i ∧ AwaitsDispatch jobId requestHash requests s k := by
  by_cases own : k = i
  · refine iff_of_false (fun awaits => ?_) fun both => both.1 own
    obtain ⟨waiting, -⟩ := JobInvariant.undispatched_some awaits
    simp [JobSystem.endDispatch, own] at waiting
  · have same : (s.endDispatch i).dispatched k = s.dispatched k := Function.update_of_ne own _ _
    unfold AwaitsDispatch JobSystem.undispatched
    rw [same]
    exact (and_iff_right own).symm

theorem NoAbandonedJob.called (fine : NoAbandonedJob jobId requestHash requests s)
    (holds : JobInvariant jobId requestHash requests s) {i : ι} {calls : JobCalls ι}
    (effect : CallEffect jobId (jobArgs requestHash requests) s.calls i calls) :
    NoAbandonedJob jobId requestHash requests { s with calls := calls } := by
  refine noAbandonedJob_iff.mpr fun row hr active => ?_
  have old : row ∈ s.calls.jobs →
      Attended jobId requestHash requests { s with calls := calls } s.broker.messages row.id :=
    fun hr => (fine.attended row hr active).mono (fun m hm same => ⟨m, hm, same⟩)
      fun k same awaits => .inr ⟨k, same, awaits.called effect⟩
  cases effect with
  | answers | passes | rejects | clashes | inserts => exact old hr
  | publishes committing =>
    obtain before | new := List.mem_append.mp hr
    · exact old before
    · rw [List.mem_singleton] at new
      subst new
      refine .inr ⟨i, rfl, ?_⟩
      have waiting : s.dispatched i = false := by
        refine Bool.eq_false_iff.mpr fun dispatched => ?_
        obtain ⟨answer, seen, done⟩ := holds.ended i dispatched
        rw [committing] at done
        cases done
      unfold AwaitsDispatch JobSystem.undispatched
      simp [JobCalls.finish, JobCalls.goto, waiting]

theorem NoAbandonedJob.dispatch (fine : NoAbandonedJob jobId requestHash requests s) {i : ι}
    {job : BackgroundJob} (found : s.undispatched i = some job) :
    NoAbandonedJob jobId requestHash requests
      { s.endDispatch i with broker := s.broker.send ⟨(requests i).task, job.id, 0⟩ } := by
  refine noAbandonedJob_iff.mpr fun row hr active => ?_
  have sent : ∀ m, m = ⟨(requests i).task, job.id, 0⟩ ∨ m ∈ s.broker.messages →
      m ∈ (s.broker.send ⟨(requests i).task, job.id, 0⟩).messages := fun m hm =>
    messages_send.mem_iff.mpr (List.mem_cons.mpr hm)
  refine (fine.attended row hr active).mono (fun m hm same => ⟨m, sent m (.inr hm), same⟩) ?_
  intro k same awaits
  by_cases own : k = i
  · subst own
    cases found.symm.trans awaits
    exact .inl ⟨_, sent _ (.inl rfl), same⟩
  · exact .inr ⟨k, same, awaits_endDispatch.mpr ⟨own, awaits⟩⟩

theorem noAbandonedJob_dispatchRaises [Platform] (fresh : Function.Injective jobId)
    (fine : NoAbandonedJob jobId requestHash requests s) (i : ι) :
    NoAbandonedJob jobId requestHash requests (s.endDispatch i) ↔
      KeepsWork jobId requestHash requests s (.dispatchRaises i) := by
  rw [noAbandonedJob_iff]
  constructor
  · intro attended _ row hr own active
    obtain ⟨m, hm, same⟩ | ⟨k, same, awaits⟩ := attended row hr active
    · exact ⟨m, hm, same.trans own⟩
    · exact absurd (fresh (same.trans own)) (awaits_endDispatch.mp awaits).1
  · intro keeps row hr active
    refine (fine.attended row hr active).mono (fun m hm same => ⟨m, hm, same⟩) ?_
    intro k same awaits
    by_cases own : k = i
    · subst own
      obtain ⟨m, hm, same'⟩ := keeps awaits row hr same.symm active
      exact .inl ⟨m, hm, same'.trans same⟩
    · exact .inr ⟨k, same, awaits_endDispatch.mpr ⟨own, awaits⟩⟩

omit [DecidableEq ι] in
/-- The messages of the others survive a step of a delivery. -/
theorem others_settle {b : Broker TaskMessage TaskExec} {n : Nat} {d : TaskMessage × TaskExec}
    (here : b.deliveries[n]? = some d) (exec : TaskExec) {m : TaskMessage} (hm : m ∈ b.others n) :
    m ∈ (settle b n d.1 exec).messages := by
  unfold settle
  split
  · rw [messages_advance here]
    exact (messages_perm_others here).mem_iff.mpr (List.mem_cons_of_mem _ hm)
  · exact hm
  · split
    · exact messages_retry.mem_iff.mpr (List.mem_cons_of_mem _ hm)
    · exact hm

omit [DecidableEq ι] in
/-- A step that gives the job up leaves its status and takes its delivery. -/
theorem settle_givesUp [Platform] {n : Nat} {event : TaskEvent} {d : TaskMessage × TaskExec}
    {row : BackgroundJob} {outcome : TaskOutcome}
    (stepped : s.outcome d.2 event row = some outcome)
    (spec : TaskSpec d.2 event row outcome)
    (gives : s.givesUp d event row = true) : outcome.row.status = row.status ∧
      (settle s.broker n d.1 outcome.exec).messages = s.broker.others n := by
  unfold settle
  rw [JobSystem.givesUp, stepped, Bool.or_eq_true, Bool.and_eq_true, decide_eq_true_eq,
    Option.any_some, decide_eq_true_eq] at gives
  obtain stale | ⟨last, raised⟩ := gives
  · obtain ⟨returned, unwritten⟩ := spec.stale stale
    rw [returned]
    exact ⟨unwritten, rfl⟩
  · rw [raised]
    simp only [if_neg (Nat.not_lt.mpr last)]
    exact ⟨spec.raised raised, rfl⟩

omit [DecidableEq ι] in
/-- A step that leaves the row active without giving it up leaves a message of its job. -/
theorem settle_goesOn [Platform] {n : Nat} {event : TaskEvent} {d : TaskMessage × TaskExec}
    {row : BackgroundJob} {outcome : TaskOutcome}
    (here : s.broker.deliveries[n]? = some d) (stepped : s.outcome d.2 event row = some outcome)
    (spec : TaskSpec d.2 event row outcome) (active : outcome.row.status.active = true)
    (goesOn : s.givesUp d event row = false) :
    ∃ m ∈ (settle s.broker n d.1 outcome.exec).messages, m.jobId = d.1.jobId := by
  unfold settle
  cases ending : outcome.exec.ending with
  | none =>
    refine ⟨d.1, ?_, rfl⟩
    simp only [messages_advance here]
    exact mem_messages here
  | some how =>
    cases how with
    | returned =>
      cases stale : d.2.staleCompletion event with
      | true => simp [JobSystem.givesUp, stale] at goesOn
      | false => simp [spec.returned ending stale] at active
    | raised =>
      by_cases last : d.1.retries < maxRetries
      · refine ⟨{ d.1 with retries := d.1.retries + 1 }, ?_, rfl⟩
        simp only [if_pos last]
        exact messages_retry.mem_iff.mpr List.mem_cons_self
      · simp [JobSystem.givesUp, stepped, ending, Nat.not_lt.mp last] at goesOn

omit [DecidableEq ι] in
theorem noAbandonedJob_work [Platform] (holds : JobInvariant jobId requestHash requests s)
    (fine : NoAbandonedJob jobId requestHash requests s) {n : Nat} {event : TaskEvent}
    (moved : s.work n event = some t) : NoAbandonedJob jobId requestHash requests t ↔
      KeepsWork jobId requestHash requests s (.work n event) := by
  obtain ⟨d, row, outcome, here, hr, sameId, stepped, ⟨calls, wrote, rfl⟩, spec⟩ :=
    holds.work_cases moved
  obtain ⟨rfl, -, -⟩ := write_rows wrote
  rw [noAbandonedJob_iff]
  constructor
  · rintro attended d' here' row' hr' sameId' active gives
    cases here.symm.trans here'
    cases holds.eq_of_id hr hr' (sameId.trans sameId'.symm)
    obtain ⟨unwritten, left⟩ := settle_givesUp (n := n) stepped spec gives
    have written := (mem_writeRow ⟨row, hr, spec.same.1.symm⟩).mpr (.inl rfl)
    have after := attended outcome.row written (unwritten ▸ active)
    simp only [left, spec.same.1] at after
    exact after
  · intro keeps row' hr' active
    obtain ⟨old, ho, rfl⟩ := List.mem_map.mp hr'
    by_cases own : old.id = outcome.row.id
    · have one : writeRow outcome.row old = outcome.row := if_pos own
      rw [one] at active ⊢
      cases gives : s.givesUp d event row with
      | true =>
        obtain ⟨unwritten, left⟩ := settle_givesUp (n := n) stepped spec gives
        simp only [left, spec.same.1]
        exact keeps d here row hr sameId (unwritten ▸ active) gives
      | false =>
        obtain ⟨m, hm, same⟩ := settle_goesOn here stepped spec active gives
        exact .inl ⟨m, hm, same.trans (sameId.symm.trans spec.same.1.symm)⟩
    · have kept : writeRow outcome.row old = old := if_neg own
      rw [kept] at active ⊢
      refine (fine.attended old ho active).mono (fun m hm same => ⟨m, ?_, same⟩)
        fun k same awaits => .inr ⟨k, same, awaits⟩
      refine others_settle here outcome.exec ?_
      obtain rfl | other := List.mem_cons.mp ((messages_perm_others here).mem_iff.mp hm)
      · exact absurd (same.symm.trans (sameId.symm.trans spec.same.1.symm)) own
      · exact other

theorem noAbandonedJob_step [Platform] (fresh : Function.Injective jobId)
    (holds : JobInvariant jobId requestHash requests s)
    (fine : NoAbandonedJob jobId requestHash requests s) {op : JobOp ι}
    (moved : (jobMachine jobId requestHash requests).step s op = some t) :
    NoAbandonedJob jobId requestHash requests t ↔ KeepsWork jobId requestHash requests s op := by
  cases op with
  | request i =>
    change (if _ then _ else _) = _ at moved
    split at moved
    · obtain ⟨calls, called, rfl⟩ := Option.map_eq_some_iff.mp moved
      exact iff_of_true (fine.called holds (call_effect called)) trivial
    · cases moved
  | dispatch i =>
    obtain ⟨job, found, rfl⟩ := Option.map_eq_some_iff.mp moved
    exact iff_of_true (fine.dispatch found) trivial
  | dispatchRaises i =>
    obtain ⟨job, -, rfl⟩ := Option.map_eq_some_iff.mp moved
    exact noAbandonedJob_dispatchRaises fresh fine i
  | deliver m =>
    obtain ⟨broker, delivered, rfl⟩ := Option.map_eq_some_iff.mp moved
    have kept := fine.brokered fun m hm => (messages_deliver delivered).mem_iff.mpr hm
    exact iff_of_true kept trivial
  | work n event => exact noAbandonedJob_work holds fine moved
  | redeliver n =>
    obtain ⟨broker, redelivered, rfl⟩ := Option.map_eq_some_iff.mp moved
    obtain ⟨message, -, same⟩ := messages_redeliver redelivered
    have kept := fine.brokered fun m hm => same.mem_iff.mpr (List.mem_cons_of_mem _ hm)
    exact iff_of_true kept trivial
  | lose n =>
    obtain ⟨broker, lost, rfl⟩ := Option.map_eq_some_iff.mp moved
    exact iff_of_true (fine.brokered fun m hm => (messages_lose lost).mem_iff.mpr hm) trivial
  | due m =>
    obtain ⟨broker, came, rfl⟩ := Option.map_eq_some_iff.mp moved
    exact iff_of_true (fine.brokered fun m hm => (messages_due came).mem_iff.mpr hm) trivial
  | logs tables =>
    cases moved
    exact iff_of_true (noAbandonedJob_iff.mpr fine.attended) trivial

omit [DecidableEq ι] in
theorem noAbandonedJob_initial (logs : LogTables) (analyses : AnalysisTables) :
    NoAbandonedJob jobId requestHash requests { logs := logs, analyses := analyses } :=
  noAbandonedJob_iff.mpr (by rintro row ⟨⟩)

/-- No state of a run abandons an active job if and only if all its steps keep work on the
jobs they leave active. -/
theorem no_abandoned_job_iff [Platform] (fresh : Function.Injective jobId) (logs : LogTables)
    (analyses : AnalysisTables) (ops : List (JobOp ι))
    (ran : (jobMachine jobId requestHash requests).run { logs := logs, analyses := analyses } ops =
      some s) :
    (∀ before after t, ops = before ++ after →
      (jobMachine jobId requestHash requests).run { logs := logs, analyses := analyses } before =
        some t → NoAbandonedJob jobId requestHash requests t) ↔
      Meets (jobMachine jobId requestHash requests) (KeepsWork jobId requestHash requests)
        { logs := logs, analyses := analyses } ops :=
  prefixes_iff_meets (I := JobInvariant jobId requestHash requests)
    (fun _ _ _ holds moved => holds.next fresh moved)
    (fun _ _ _ holds fine moved => noAbandonedJob_step fresh holds fine moved)
    (jobInvariant_initial logs analyses) (noAbandonedJob_initial logs analyses) ran

/-- An analysis job with nothing in flight. -/
structure Abandoned (jobId : ι → Str) (requestHash : List LogIngestRequest → Str)
    (requests : ι → JobRequest) (row : BackgroundJob) (s : JobSystem ι) : Prop where
  committed : row ∈ s.calls.jobs
  analysis : row.jobType = .errorGroupAnalysis
  unattended : ¬ Attended jobId requestHash requests s s.broker.messages row.id

omit [DecidableEq ι] in
/-- The job stays in the table, and nothing new attends to it. -/
theorem Abandoned.kept {row : BackgroundJob} {messages : List TaskMessage}
    (abandoned : Abandoned jobId requestHash requests row s)
    (committed : row ∈ t.calls.jobs) (same : t.broker.messages = messages)
    (attend : Attended jobId requestHash requests t messages row.id →
      Attended jobId requestHash requests s s.broker.messages row.id) :
    Abandoned jobId requestHash requests row t :=
  ⟨committed, abandoned.analysis, fun attended => abandoned.unattended (attend (same ▸ attended))⟩

omit [DecidableEq ι] in
theorem Abandoned.brokered {row : BackgroundJob}
    (abandoned : Abandoned jobId requestHash requests row s)
    {broker : Broker TaskMessage TaskExec} (sub : ∀ m ∈ broker.messages, m ∈ s.broker.messages) :
    Abandoned jobId requestHash requests row { s with broker := broker } := by
  refine abandoned.kept abandoned.committed rfl fun attended => ?_
  exact attended.mono (fun m hm same => ⟨m, sub m hm, same⟩)
    fun i same awaits => .inr ⟨i, same, awaits⟩

omit [DecidableEq ι] in
/-- The job that a caller publishes next is an other one. -/
theorem Abandoned.undispatched {row : BackgroundJob} {i : ι} {job : BackgroundJob}
    (holds : JobInvariant jobId requestHash requests s)
    (abandoned : Abandoned jobId requestHash requests row s)
    (found : s.undispatched i = some job) : job.id ≠ row.id := by
  intro same
  obtain ⟨-, seen, done⟩ := JobInvariant.undispatched_some found
  obtain ⟨row', hr', sameId, named⟩ := holds.calls.answered_row done
  cases holds.eq_of_id hr' abandoned.committed (sameId.trans same)
  have answered := holds.calls.answered i _ seen done
  generalize h : (Except.ok job : Except Raised BackgroundJob) = answer at answered
  cases answered with
  | created =>
    cases h
    exact abandoned.unattended (.inr ⟨i, same, found⟩)
  | replayed keyed =>
    unfold jobArgs at named keyed
    cases request : requests i with
    | bulk =>
      rw [request, abandoned.analysis] at named
      cases named
    | analyze =>
      rw [request] at keyed
      cases keyed
  | refused => cases h
  | broken => cases h
  | rejected => cases h

theorem Abandoned.request {row : BackgroundJob} {i : ι} {calls : JobCalls ι}
    (fresh : Function.Injective jobId) (holds : JobInvariant jobId requestHash requests s)
    (abandoned : Abandoned jobId requestHash requests row s)
    (effect : CallEffect jobId (jobArgs requestHash requests) s.calls i calls) :
    Abandoned jobId requestHash requests row { s with calls := calls } := by
  refine abandoned.kept ?_ rfl fun attended => ?_
  · obtain same | added := call_jobs effect
    · exact same ▸ abandoned.committed
    · exact added ▸ List.mem_append_left _ abandoned.committed
  · refine attended.mono (fun m hm same => ⟨m, hm, same⟩) fun k same awaits => ?_
    refine .inr ⟨k, same, ?_⟩
    by_cases own : k = i ∧ ∀ answer seen, s.calls.phase k ≠ .finished answer seen
    · exact absurd same.symm (holds.calls.unfinished fresh own.2 abandoned.committed)
    · have before : k ≠ i ∨ ∃ answer seen, s.calls.phase k = .finished answer seen := by
        by_cases other : k = i
        · exact .inr (by simpa [other] using own)
        · exact .inl other
      unfold AwaitsDispatch JobSystem.undispatched at *
      rwa [call_phase effect before] at awaits

omit [DecidableEq ι] in
/-- A delivery belongs to an other job, and its step writes an other row. -/
theorem Abandoned.work [Platform] {row : BackgroundJob} {n : Nat} {event : TaskEvent}
    (holds : JobInvariant jobId requestHash requests s)
    (abandoned : Abandoned jobId requestHash requests row s)
    (moved : s.work n event = some t) : Abandoned jobId requestHash requests row t := by
  obtain ⟨d, row', outcome, here, -, sameId, -, ⟨calls, wrote, rfl⟩, spec⟩ := holds.work_cases moved
  obtain ⟨rfl, -, -⟩ := write_rows wrote
  have other : row.id ≠ outcome.row.id := by
    intro same
    refine abandoned.unattended (.inl ⟨d.1, mem_messages here, ?_⟩)
    exact sameId.symm.trans (spec.same.1.symm.trans same.symm)
  refine abandoned.kept ?_ rfl fun attended => ?_
  · exact List.mem_map.mpr ⟨row, abandoned.committed, if_neg other⟩
  · refine attended.mono (fun m hm same => ?_) fun k same awaits => .inr ⟨k, same, awaits⟩
    obtain ⟨m', hm', job, -⟩ := JobInvariant.mem_settle here hm
    exact ⟨m', hm', job ▸ same⟩

/-- Nothing that happens later picks the job up. -/
theorem Abandoned.step [Platform] {row : BackgroundJob} (fresh : Function.Injective jobId)
    (holds : JobInvariant jobId requestHash requests s)
    (abandoned : Abandoned jobId requestHash requests row s) {op : JobOp ι}
    (moved : (jobMachine jobId requestHash requests).step s op = some t) :
    Abandoned jobId requestHash requests row t := by
  cases op with
  | request i =>
    change (if _ then _ else _) = _ at moved
    split at moved
    · obtain ⟨calls, called, rfl⟩ := Option.map_eq_some_iff.mp moved
      exact abandoned.request fresh holds (call_effect called)
    · cases moved
  | dispatch i =>
    obtain ⟨job, found, rfl⟩ := Option.map_eq_some_iff.mp moved
    refine abandoned.kept abandoned.committed rfl fun attended =>
      attended.mono (fun m hm same => ?_) fun k same awaits =>
        .inr ⟨k, same, (awaits_endDispatch.mp awaits).2⟩
    obtain rfl | old := List.mem_cons.mp (messages_send.mem_iff.mp hm)
    · exact absurd same (abandoned.undispatched holds found)
    · exact ⟨m, old, same⟩
  | dispatchRaises i =>
    obtain ⟨job, -, rfl⟩ := Option.map_eq_some_iff.mp moved
    refine abandoned.kept abandoned.committed rfl fun attended =>
      attended.mono (fun m hm same => ⟨m, hm, same⟩) fun k same awaits =>
        .inr ⟨k, same, (awaits_endDispatch.mp awaits).2⟩
  | deliver m =>
    obtain ⟨broker, delivered, rfl⟩ := Option.map_eq_some_iff.mp moved
    exact abandoned.brokered fun m hm => (messages_deliver delivered).mem_iff.mp hm
  | work n event => exact abandoned.work holds moved
  | redeliver n =>
    obtain ⟨broker, redelivered, rfl⟩ := Option.map_eq_some_iff.mp moved
    obtain ⟨message, known, same⟩ := messages_redeliver redelivered
    refine abandoned.brokered fun m hm => ?_
    obtain rfl | old := List.mem_cons.mp (same.mem_iff.mp hm)
    · exact known
    · exact old
  | lose n =>
    obtain ⟨broker, lost, rfl⟩ := Option.map_eq_some_iff.mp moved
    exact abandoned.brokered fun m hm => (messages_lose lost).mem_iff.mp hm
  | due m =>
    obtain ⟨broker, came, rfl⟩ := Option.map_eq_some_iff.mp moved
    exact abandoned.brokered fun m hm => (messages_due came).mem_iff.mp hm
  | logs tables =>
    cases moved
    refine abandoned.kept abandoned.committed rfl fun attended => ?_
    exact attended.mono (fun m hm same => ⟨m, hm, same⟩) fun k same awaits => .inr ⟨k, same, awaits⟩

/-- The scope of an abandoned active job is locked in every state that follows. -/
theorem abandoned_scope_stays_locked [Platform] {row : BackgroundJob}
    (fresh : Function.Injective jobId) (holds : JobInvariant jobId requestHash requests s)
    (abandoned : Abandoned jobId requestHash requests row s) (active : row.status.active = true)
    {ops : List (JobOp ι)} (ran : (jobMachine jobId requestHash requests).run s ops = some t)
    (id : Str) {groupId : Nat} (currentUser : Nat)
    (scope : row.scopeKey = (analysisJobArgs groupId currentUser).scopeKey) :
    (createJob id (analysisJobArgs groupId currentUser) t.calls.jobs).1 =
      .error (.app scopeConflict) := by
  have later := run_invariant (I := fun s => JobInvariant jobId requestHash requests s ∧
      Abandoned jobId requestHash requests row s)
    (fun _ _ _ both moved => ⟨both.1.next fresh moved, both.2.step fresh both.1 moved⟩)
    ⟨holds, abandoned⟩ ran
  have found : (getActiveByScope t.calls.jobs .errorGroupAnalysis
      ("error-group:".toList ++ strOfId groupId ++ ":analysis".toList)).isSome = true :=
    List.find?_isSome.mpr
      ⟨row, later.2.committed, activeIn_iff.mpr ⟨abandoned.analysis, scope, active⟩⟩
  obtain ⟨other, found⟩ := Option.isSome_iff_exists.mp found
  have refused : lookupScope (analysisJobArgs groupId currentUser) t.calls.jobs =
      some (.error (.app scopeConflict)) := by
    simp only [lookupScope, analysisJobArgs, Option.bind_some, found, Option.map_some]
    exact if_pos (analysisScope_nulFree groupId)
  unfold createJob
  rw [refused]
  rfl

end Exactness

section Sample

instance {n : Nat} (jobId : Fin n → Str) (requestHash : List LogIngestRequest → Str)
    (requests : Fin n → JobRequest) (s : JobSystem (Fin n)) (messages : List TaskMessage)
    (id : Str) : Decidable (Attended jobId requestHash requests s messages id) :=
  inferInstanceAs (Decidable ((∃ m ∈ messages, m.jobId = id) ∨ ∃ i, jobId i = id ∧
    s.undispatched i = some (callRow jobId (jobArgs requestHash requests) i)))

instance [Platform] {n : Nat} (jobId : Fin n → Str) (requestHash : List LogIngestRequest → Str)
    (requests : Fin n → JobRequest) (s : JobSystem (Fin n)) :
    (op : JobOp (Fin n)) → Decidable (KeepsWork jobId requestHash requests s op)
  | .dispatchRaises i => inferInstanceAs (Decidable
      (s.undispatched i = some (callRow jobId (jobArgs requestHash requests) i) →
        ∀ row ∈ s.calls.jobs, row.id = jobId i → row.status.active = true →
          ∃ m ∈ s.broker.messages, m.jobId = jobId i))
  | .work n event => inferInstanceAs (Decidable
      (∀ d ∈ s.broker.deliveries[n]?, ∀ row ∈ s.calls.jobs, row.id = d.1.jobId →
        row.status.active = true → s.givesUp d event row = true →
          Attended jobId requestHash requests s (s.broker.others n) row.id))
  | .request _ | .dispatch _ | .deliver _ | .redeliver _ | .lose _ | .due _ | .logs _ =>
    isTrue trivial

/-- The group to analyze. -/
def sampleGroup : ErrorGroup where
  id := 1
  fingerprint := []
  title := ['t']
  serviceName := ['s']
  environment := .production
  exceptionType := none
  firstSeen := 0
  lastSeen := 0
  occurrenceCount := 1
  status := .unresolved
  severity := .high
  assignedTo := none
  createdAt := 0

def analyzeOnce (_ : Fin 1) : JobRequest := .analyze 1 7

def analyzeOnceId (_ : Fin 1) : Str := ['j']

def analyzeOnceMachine : Machine (JobSystem (Fin 1)) (JobOp (Fin 1)) :=
  @jobMachine _ _ asciiPlatform analyzeOnceId (fun _ => []) analyzeOnce

def analyzeOnceStart : JobSystem (Fin 1) := { logs := { errorGroups := [sampleGroup] } }

def analyzeMessage (retries : Nat) : TaskMessage := ⟨.runErrorGroupAnalysis, ['j'], retries⟩

abbrev onlyRequest : Fin 1 := 0

/-- The first attempt loses its connection, the second one records that the provider failed. -/
def analyzeWithRetry : List (JobOp (Fin 1)) :=
  [.request 0, .request 0, .request 0, .request 0, .dispatch 0, .deliver (analyzeMessage 0),
    .work 0 (.analysis .load),
    .work 0 (.analysis (.prepare 1 none (some "connection lost".toList) none)),
    .due (analyzeMessage 1), .deliver (analyzeMessage 1), .work 0 (.analysis .load),
    .work 0 (.analysis (.prepare 2 none none none)),
    .work 0 (.analysis (.select none)),
    .work 0 (.analysis (.finish 3 4 (.error "timeout".toList) none none))]

theorem no_abandoned_job_analyzeWithRetry :
    ∃ s, analyzeOnceMachine.run analyzeOnceStart analyzeWithRetry = some s ∧
      s.calls.jobs.map (·.status) = [.failed] ∧ s.broker.messages = [] ∧
      ∀ before after t, analyzeWithRetry = before ++ after →
        analyzeOnceMachine.run analyzeOnceStart before = some t →
        NoAbandonedJob analyzeOnceId (fun _ => []) analyzeOnce t := by
  obtain ⟨s, ran⟩ : ∃ s, analyzeOnceMachine.run analyzeOnceStart analyzeWithRetry = some s :=
    Option.isSome_iff_exists.mp (by decide)
  have ended : (analyzeOnceMachine.run analyzeOnceStart analyzeWithRetry).map
      (fun s => (s.calls.jobs.map (·.status), s.broker.messages)) = some ([.failed], []) := by
    decide
  rw [ran, Option.map_some, Option.some.injEq, Prod.mk.injEq] at ended
  have injective : Function.Injective analyzeOnceId := fun i k _ => Subsingleton.elim i k
  exact ⟨s, ran, ended.1, ended.2, (@no_abandoned_job_iff _ analyzeOnceId (fun _ => [])
    analyzeOnce s _ asciiPlatform injective { errorGroups := [sampleGroup] } {} analyzeWithRetry
    ran).mpr
      (by decide)⟩

/-- The dispatch raises after the commit of the job. -/
theorem no_abandoned_job_fails :
    ¬ ∀ ops s, analyzeOnceMachine.run analyzeOnceStart ops = some s →
      NoAbandonedJob analyzeOnceId (fun _ => []) analyzeOnce s := by
  intro fine
  let ops : List (JobOp (Fin 1)) := [.request 0, .request 0, .request 0, .request 0,
    .dispatchRaises 0]
  obtain ⟨s, ran⟩ : ∃ s, analyzeOnceMachine.run analyzeOnceStart ops = some s :=
    Option.isSome_iff_exists.mp (by decide)
  have abandoned : (analyzeOnceMachine.run analyzeOnceStart ops).all (fun s =>
      s.calls.jobs.any fun row => row.status.active &&
        !decide (Attended analyzeOnceId (fun _ => []) analyzeOnce s s.broker.messages row.id)) =
      true := by decide
  rw [ran, Option.all_some, List.any_eq_true] at abandoned
  obtain ⟨row, hr, both⟩ := abandoned
  rw [Bool.and_eq_true, Bool.not_eq_true', decide_eq_false_iff_not] at both
  exact both.2 ((fine ops s ran).attended row hr both.1)

end Sample

end LogLens
