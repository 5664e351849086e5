import LogLens.BulkWorker
import LogLens.CreateJobRace

/-! `POST /logs/bulk` repeated by a client under one idempotency key, and the
executions its requests dispatch. Requests take the steps of `create_job`, each
accepted one sends a message, each message becomes an execution, and all of them
interleave. No execution is cut off. -/

namespace LogLens
open LabelledMachine

structure RetryRun (ι : Type) where
  calls : JobCalls ι := {}
  sent : ι → Bool := fun _ => false
  queue : List Str := []
  execs : List (Str × BulkExec) := []
  tables : LogTables

inductive RetryOp (ι : Type)
  | request (i : ι)
  /-- `process_bulk_ingestion_job_task.delay(response.job_id)` -/
  | dispatch (i : ι)
  | deliver (jobId : Str)
  | step (n : Nat) (event : BulkEvent)

def BulkExec.isRaised : BulkExec → Bool
  | .raised _ => true
  | _ => false

section Machine
variable {ι : Type} [DecidableEq ι] [Platform] (jobId : ι → Str) (args : ι → CreateJobArgs)

def RetryRun.dispatch (s : RetryRun ι) (i : ι) : Option (RetryRun ι) :=
  match s.calls.phase i with
  | .finished (.ok job) _ =>
    if s.sent i then none
    else some { s with sent := Function.update s.sent i true, queue := s.queue ++ [job.id] }
  | _ => none

def RetryRun.work (s : RetryRun ι) (n : Nat) (event : BulkEvent) : Option (RetryRun ι) :=
  s.execs[n]?.bind fun e =>
    (s.calls.jobs.find? fun row => row.id = e.1).bind fun row =>
      (bulkStep e.2 event row s.tables).bind fun outcome =>
        if outcome.exec.isRaised then none
        else (s.calls.write outcome.row).map fun calls =>
          { s with
            calls := calls
            tables := outcome.tables
            execs := s.execs.set n (e.1, outcome.exec) }

def retryMachine : Machine (RetryRun ι) (RetryOp ι) where
  step s
    | .request i => (s.calls.call jobId args i).map fun calls => { s with calls := calls }
    | .dispatch i => s.dispatch i
    | .deliver id =>
      if id ∈ s.queue then
        some { s with queue := s.queue.erase id, execs := s.execs ++ [(id, .started)] }
      else none
    | .step n event => s.work n event

/-- An execution that finds the job neither COMPLETED nor PARTIALLY_COMPLETED
finds no other execution past that check and still at work. -/
def SoleExecution (s : RetryRun ι) : RetryOp ι → Prop
  | .step n .load => ∀ e, s.execs[n]? = some e → e.2 = .started →
    ∀ row ∈ s.calls.jobs, row.id = e.1 → skipsExecution row.status = false →
      ∀ other ∈ s.execs, other.2.live = false
  | _ => True

end Machine

section Progress
variable [Platform] (batch : List LogIngestRequest) (t₀ : LogTables)

/-- How far the execution at work got. -/
def WorkedTo (row : BackgroundJob) (tables : LogTables) : BulkExec → Prop
  | .loaded job => job = row ∧ tables = t₀
  | .items job logs index _ _ => job = row ∧ logs = batch ∧
    ∃ outcomes : List (Timestamp × PersistFault), outcomes.length = index ∧
      index ≤ batch.length ∧ tables = processBatch ((batch.take index).zip outcomes) t₀
  | _ => False

inductive Progress (jobs : List BackgroundJob) (execs : List (Str × BulkExec))
    (tables : LogTables) : Prop
  | waiting : tables = t₀ → (∀ row ∈ jobs, skipsExecution row.status = false) →
    (∀ e ∈ execs, e.2 = .started) → Progress jobs execs tables
  | working {row : BackgroundJob} {n : Nat} {e : Str × BulkExec} : jobs = [row] →
    skipsExecution row.status = false → execs[n]? = some e →
    WorkedTo batch t₀ row tables e.2 →
    (∀ m other, execs[m]? = some other → m ≠ n → other.2 = .started) →
    Progress jobs execs tables
  | done {row : BackgroundJob} {outcomes : List (Timestamp × PersistFault)} : jobs = [row] →
    skipsExecution row.status = true → outcomes.length = batch.length →
    tables = processBatch (batch.zip outcomes) t₀ → execs ≠ [] →
    (∀ e ∈ execs, e.2.live = false) → Progress jobs execs tables

end Progress

section Invariant
variable {ι : Type} [Platform]

/-- The calls of `create_job` behind the requests: one payload, any users. -/
def retryArgs (requestHash : List LogIngestRequest → Str) (request : BulkLogIngestRequest)
    (user : ι → Nat) (i : ι) : CreateJobArgs :=
  bulkJobArgs requestHash request (user i)

structure RetryInvariant (jobId : ι → Str) (args : ι → CreateJobArgs)
    (batch : List LogIngestRequest) (t₀ : LogTables) (s : RetryRun ι) : Prop where
  calls : CallsInvariant jobId args s.calls
  queued : ∀ id ∈ s.queue, ∃ row ∈ s.calls.jobs, row.id = id
  delivered : ∀ e ∈ s.execs, ∃ row ∈ s.calls.jobs, row.id = e.1
  traffic : (∃ i, s.sent i = true) ↔ s.queue ≠ [] ∨ s.execs ≠ []
  progress : Progress batch t₀ s.calls.jobs s.execs s.tables

variable {jobId : ι → Str} {requestHash : List LogIngestRequest → Str}
  {request : BulkLogIngestRequest} {user : ι → Nat} {t₀ : LogTables} {key : Str}

omit [Platform] in
theorem retry_hasKey {calls : JobCalls ι}
    (holds : CallsInvariant jobId (retryArgs requestHash request user) calls)
    (keyed : request.idempotencyKey = some key) {row : BackgroundJob} (hr : row ∈ calls.jobs) :
    row.hasKey .bulkLogIngest key = true ∧ row.payload.logs = some request.logs := by
  obtain ⟨i, answer, seen, -, same⟩ := holds.committed row hr
  exact ⟨same.hasKey (hasKey_iff.mpr ⟨rfl, keyed⟩), same.2.2.2.2.2⟩

omit [Platform] in
/-- One key, one row. -/
theorem retry_jobs {calls : JobCalls ι}
    (holds : CallsInvariant jobId (retryArgs requestHash request user) calls)
    (keyed : request.idempotencyKey = some key) {row : BackgroundJob} (hr : row ∈ calls.jobs) :
    calls.jobs = [row] := by
  have only : ∀ other ∈ calls.jobs, other = row := fun other ho =>
    holds.sameKey ho hr (retry_hasKey holds keyed ho).1 (retry_hasKey holds keyed hr).1
  have nodup := holds.ids.of_map
  cases jobs : calls.jobs with
  | nil =>
    rw [jobs] at hr
    cases hr
  | cons a rest =>
    rw [jobs] at only nodup
    have first := only a List.mem_cons_self
    cases rest with
    | nil => rw [first]
    | cons b rest =>
      have second := only b (List.mem_cons_of_mem _ List.mem_cons_self)
      rw [first, second] at nodup
      exact absurd List.mem_cons_self (List.nodup_cons.mp nodup).1

/-- A new message or delivery does not disturb the progress. -/
theorem Progress.append {batch : List LogIngestRequest} {jobs : List BackgroundJob}
    {execs : List (Str × BulkExec)} {tables : LogTables}
    (progress : Progress batch t₀ jobs execs tables) (id : Str) :
    Progress batch t₀ jobs (execs ++ [(id, .started)]) tables := by
  cases progress with
  | waiting same pending started =>
    refine .waiting same pending ?_
    rw [List.forall_mem_append, List.forall_mem_singleton]
    exact ⟨started, rfl⟩
  | working one active here at' started =>
    have inside : _ < execs.length := (List.getElem?_eq_some_iff.mp here).1
    refine .working one active (by rw [List.getElem?_append_left inside]; exact here) at' ?_
    intro m other found different
    by_cases old : m < execs.length
    · rw [List.getElem?_append_left old] at found
      exact started m other found different
    · have new := List.mem_of_getElem? found
      rw [List.getElem?_append_right (not_lt.mp old)] at found
      have last := List.mem_of_getElem? found
      rw [List.mem_singleton] at last
      rw [last]
  | done one ended lengths same _ finished =>
    refine .done one ended lengths same (by simp) ?_
    rw [List.forall_mem_append, List.forall_mem_singleton]
    exact ⟨finished, rfl⟩

variable [DecidableEq ι]

theorem RetryInvariant.called {s : RetryRun ι}
    (holds : RetryInvariant jobId (retryArgs requestHash request user) request.logs t₀ s)
    (fresh : Function.Injective jobId) (keyed : request.idempotencyKey = some key) {i : ι}
    {calls : JobCalls ι}
    (effect : CallEffect jobId (retryArgs requestHash request user) s.calls i calls) :
    RetryInvariant jobId (retryArgs requestHash request user) request.logs t₀
      { s with calls := calls } := by
  have next := holds.calls.call fresh effect
  obtain same | added := call_jobs effect
  · refine ⟨next, ?_, ?_, holds.traffic, ?_⟩
    · rw [same]
      exact holds.queued
    · rw [same]
      exact holds.delivered
    · rw [same]
      exact holds.progress
  · -- the row of the key can only be the first
    have first : s.calls.jobs = [] := by
      have own : callRow jobId (retryArgs requestHash request user) i ∈ calls.jobs := by
        rw [added]
        exact List.mem_append_right _ (List.mem_singleton_self _)
      have one := congrArg List.length (retry_jobs next keyed own)
      rw [added, List.length_append, List.length_singleton] at one
      exact List.length_eq_zero_iff.mp (by omega)
    have noQueue : s.queue = [] := by
      refine List.eq_nil_iff_forall_not_mem.mpr fun id hid => ?_
      obtain ⟨row, hr, -⟩ := holds.queued id hid
      rw [first] at hr
      cases hr
    have noExecs : s.execs = [] := by
      refine List.eq_nil_iff_forall_not_mem.mpr fun e he => ?_
      obtain ⟨row, hr, -⟩ := holds.delivered e he
      rw [first] at hr
      cases hr
    refine ⟨next, ?_, ?_, holds.traffic, ?_⟩
    · rw [noQueue]
      rintro _ ⟨⟩
    · rw [noExecs]
      rintro _ ⟨⟩
    · rw [noExecs, added, first]
      have start := holds.progress
      rw [first, noExecs] at start
      cases start with
      | waiting same _ _ =>
        refine .waiting same ?_ (by rintro _ ⟨⟩)
        rw [List.nil_append, List.forall_mem_singleton]
        rfl
      | working one => cases one
      | done one => cases one

theorem RetryInvariant.dispatch {args : ι → CreateJobArgs} {batch : List LogIngestRequest}
    {s t : RetryRun ι} (holds : RetryInvariant jobId args batch t₀ s) {i : ι}
    (moved : s.dispatch i = some t) : RetryInvariant jobId args batch t₀ t := by
  unfold RetryRun.dispatch at moved
  split at moved
  · rename_i job seen done
    split at moved
    · cases moved
    · cases moved
      refine ⟨holds.calls, ?_, holds.delivered, ?_, holds.progress⟩
      · rw [List.forall_mem_append, List.forall_mem_singleton]
        obtain ⟨row, hr, sameId, -⟩ := holds.calls.answered_row done
        exact ⟨holds.queued, row, hr, sameId⟩
      · exact iff_of_true ⟨i, Function.update_self _ _ _⟩ (.inl (by simp))
  · cases moved

omit [DecidableEq ι] in
theorem RetryInvariant.deliver {args : ι → CreateJobArgs} {batch : List LogIngestRequest}
    {s : RetryRun ι} (holds : RetryInvariant jobId args batch t₀ s) {id : Str}
    (queued : id ∈ s.queue) : RetryInvariant jobId args batch t₀
      { s with queue := s.queue.erase id, execs := s.execs ++ [(id, .started)] } where
  calls := holds.calls
  queued other ho := holds.queued other (List.mem_of_mem_erase ho)
  delivered := by
    rw [List.forall_mem_append, List.forall_mem_singleton]
    exact ⟨holds.delivered, holds.queued id queued⟩
  traffic := by
    refine iff_of_true (holds.traffic.mpr (.inl ?_)) (.inr (by simp))
    exact List.ne_nil_of_mem queued
  progress := holds.progress.append id

omit [DecidableEq ι] in
/-- A step of one execution that leaves `written` in place of the only row. -/
theorem RetryInvariant.worked {args : ι → CreateJobArgs} {batch : List LogIngestRequest}
    {s : RetryRun ι} (holds : RetryInvariant jobId args batch t₀ s) {row written : BackgroundJob}
    (one : s.calls.jobs = [row]) {calls : JobCalls ι} (wrote : s.calls.write written = some calls)
    {n : Nat} {id : Str} {exec exec' : BulkExec} (here : s.execs[n]? = some (id, exec))
    {tables : LogTables}
    (progress : Progress batch t₀ [written] (s.execs.set n (id, exec')) tables) :
    RetryInvariant jobId args batch t₀
      { s with calls := calls, tables := tables, execs := s.execs.set n (id, exec') } := by
  have next := holds.calls.write wrote
  obtain ⟨rfl, ⟨own, hown, same⟩, -⟩ := write_rows wrote
  rw [one, List.mem_singleton] at hown
  subst hown
  have jobs : s.calls.jobs.map (writeRow written) = [written] := by
    rw [one, List.map_singleton, writeRow, if_pos same.1.symm]
  have sameId : ∀ id, (∃ row ∈ s.calls.jobs, row.id = id) →
      ∃ row ∈ s.calls.jobs.map (writeRow written), row.id = id := by
    rintro id ⟨row, hr, rfl⟩
    rw [one, List.mem_singleton] at hr
    subst hr
    exact ⟨written, by rw [jobs]; exact List.mem_singleton_self _, same.1⟩
  refine ⟨next, fun id hid => sameId id (holds.queued id hid), ?_, ?_, ?_⟩
  · intro e he
    obtain old | rfl := List.mem_or_eq_of_mem_set he
    · exact sameId _ (holds.delivered e old)
    · exact sameId id (holds.delivered (id, exec) (List.mem_of_getElem? here))
  · rw [holds.traffic]
    refine or_congr_right ?_
    have before : s.execs ≠ [] := List.ne_nil_of_mem (List.mem_of_getElem? here)
    exact iff_of_true before (by rwa [ne_eq, List.set_eq_nil_iff])
  · change Progress batch t₀ (s.calls.jobs.map (writeRow written)) _ tables
    rw [jobs]
    exact progress

omit [DecidableEq ι] in
/-- The execution at work is where the progress says. -/
theorem Progress.at_live {batch : List LogIngestRequest} {row : BackgroundJob}
    {execs : List (Str × BulkExec)} {tables : LogTables}
    (progress : Progress batch t₀ [row] execs tables) {n : Nat} {id : Str} {exec : BulkExec}
    (here : execs[n]? = some (id, exec)) (live : exec.live = true) :
    skipsExecution row.status = false ∧ WorkedTo batch t₀ row tables exec ∧
      ∀ m other, execs[m]? = some other → m ≠ n → other.2 = .started := by
  cases progress with
  | waiting _ _ started =>
    have idle := started _ (List.mem_of_getElem? here)
    cases idle
    cases live
  | @working row' k e one active at' worked others =>
    cases one
    by_cases same : n = k
    · subst same
      rw [here] at at'
      cases at'
      exact ⟨active, worked, others⟩
    · have idle := others n _ here same
      cases idle
      cases live
  | done one _ _ _ _ finished =>
    have ended := finished _ (List.mem_of_getElem? here)
    rw [live] at ended
    cases ended

omit [DecidableEq ι] [Platform] in
theorem others_set {execs : List (Str × BulkExec)} {n : Nat} {e : Str × BulkExec}
    (others : ∀ m other, execs[m]? = some other → m ≠ n → other.2 = .started) :
    ∀ m other, (execs.set n e)[m]? = some other → m ≠ n → other.2 = .started := by
  intro m other found different
  rw [List.getElem?_set_ne (Ne.symm different)] at found
  exact others m other found different

omit [DecidableEq ι] [Platform] in
theorem here_set {execs : List (Str × BulkExec)} {n : Nat} {e e' : Str × BulkExec}
    (here : execs[n]? = some e) : (execs.set n e')[n]? = some e' :=
  List.getElem?_set_self (List.getElem?_eq_some_iff.mp here).1

omit [Platform] [DecidableEq ι] in
theorem zip_take_succ {α β : Type} {l : List α} {outcomes : List β} {index : Nat} {a : α} {b : β}
    (here : l[index]? = some a) (lengths : outcomes.length = index) :
    (l.take (index + 1)).zip (outcomes ++ [b]) = (l.take index).zip outcomes ++ [(a, b)] := by
  have inside : index ≤ l.length := (List.getElem?_eq_some_iff.mp here).1.le
  rw [List.take_add_one, here, Option.toList_some,
    List.zip_append (by rw [List.length_take, min_eq_left inside, lengths])]
  rfl

omit [DecidableEq ι] in
theorem WorkedTo.live {batch : List LogIngestRequest} {row : BackgroundJob} {tables : LogTables}
    {exec : BulkExec} (worked : WorkedTo batch t₀ row tables exec) : exec.live = true := by
  cases exec with
  | loaded | items => rfl
  | started | returned | raised => exact worked.elim

/-- Progress of the items: one more processed. -/
theorem WorkedTo.item {batch : List LogIngestRequest} {row written : BackgroundJob}
    {tables t : LogTables} {logs : List LogIngestRequest} {index successCount successCount' : Nat}
    {failures failures' : List BulkLogItemFailure} {now : Timestamp} {fault : PersistFault}
    {item : LogIngestRequest} {result : Except Raised Log}
    (worked : WorkedTo batch t₀ row tables (.items row logs index successCount failures))
    (here : logs[index]? = some item)
    (persisted : persistInSavepoint now fault item tables = (result, t)) :
    WorkedTo batch t₀ written t (.items written logs (index + 1) successCount' failures') := by
  obtain ⟨-, rfl, outcomes, lengths, -, same⟩ := worked
  have inside : index < logs.length := (List.getElem?_eq_some_iff.mp here).1
  refine ⟨rfl, rfl, outcomes ++ [(now, fault)], by simp [lengths], inside, ?_⟩
  rw [zip_take_succ here lengths, processBatch_append, ← same, persisted]

theorem Progress.effect {row : BackgroundJob} {execs : List (Str × BulkExec)} {tables : LogTables}
    (logs : row.payload.logs = some request.logs)
    (progress : Progress request.logs t₀ [row] execs tables) {n : Nat} {id : Str} {exec : BulkExec}
    (here : execs[n]? = some (id, exec)) {outcome : BulkOutcome}
    (effect : BulkEffect row tables exec outcome) (ok : outcome.exec.isRaised = false)
    (sole : exec = .started → skipsExecution row.status = false →
      ∀ other ∈ execs, other.2.live = false) :
    Progress request.logs t₀ [outcome.row] (execs.set n (id, outcome.exec)) outcome.tables := by
  cases effect with
  | loads active =>
    cases progress with
    | waiting same _ started =>
      refine .working rfl active (here_set here) ⟨rfl, same⟩ (others_set fun m other found _ => ?_)
      exact started other (List.mem_of_getElem? found)
    | @working row' k e one _ at' worked =>
      have idle := sole rfl active e (List.mem_of_getElem? at')
      rw [worked.live] at idle
      cases idle
    | done one ended =>
      cases one
      rw [active] at ended
      cases ended
  | skips ended =>
    cases progress with
    | waiting _ pending =>
      rw [pending row (List.mem_singleton_self _)] at ended
      cases ended
    | working one active =>
      cases one
      rw [active] at ended
      cases ended
    | done one ended' lengths same some finished =>
      cases one
      refine .done rfl ended lengths same (by rwa [ne_eq, List.set_eq_nil_iff]) fun e he => ?_
      obtain old | rfl := List.mem_or_eq_of_mem_set he
      · exact finished e old
      · rfl
  | breaks => cases ok
  | enters now celeryTaskId =>
    obtain ⟨active, ⟨-, same⟩, others⟩ := progress.at_live here rfl
    have nonempty : request.logs ≠ [] := List.length_pos_iff.mp request.logs_length
    rw [enterLoop_logs (markRunning now celeryTaskId row) logs nonempty]
    exact .working rfl rfl (here_set here) ⟨rfl, rfl, [], rfl, Nat.zero_le _, same⟩
      (others_set others)
  | persists found persisted =>
    obtain ⟨active, worked, others⟩ := progress.at_live here rfl
    exact .working rfl active (here_set here) (worked.item found persisted) (others_set others)
  | fails found persisted =>
    obtain ⟨active, worked, others⟩ := progress.at_live here rfl
    exact .working rfl active (here_set here) (worked.item found persisted) (others_set others)
  | completes now last =>
    obtain ⟨active, ⟨-, rfl, outcomes, lengths, bound, same⟩, others⟩ := progress.at_live here rfl
    have nonempty : request.logs ≠ [] := List.length_pos_iff.mp request.logs_length
    have all : outcomes.length = request.logs.length := by omega
    refine .done rfl (bulkFinalStatus_skips nonempty _ _) all ?_ ?_ fun e he => ?_
    · rw [same, ← lengths, all, List.take_length]
    · rw [ne_eq, List.set_eq_nil_iff]
      exact List.ne_nil_of_mem (List.mem_of_getElem? here)
    · obtain ⟨m, found⟩ := List.getElem?_of_mem he
      by_cases own : m = n
      · subst own
        rw [here_set here, Option.some.injEq] at found
        exact found ▸ rfl
      · rw [others_set others m e found own]
        rfl

omit [DecidableEq ι] in
theorem RetryInvariant.work {s t : RetryRun ι}
    (holds : RetryInvariant jobId (retryArgs requestHash request user) request.logs t₀ s)
    (keyed : request.idempotencyKey = some key) {n : Nat} {event : BulkEvent}
    (sole : SoleExecution s (.step n event)) (moved : s.work n event = some t) :
    RetryInvariant jobId (retryArgs requestHash request user) request.logs t₀ t := by
  simp only [RetryRun.work, Option.bind_eq_some_iff] at moved
  obtain ⟨⟨id, exec⟩, here, row, found, outcome, stepped, moved⟩ := moved
  split at moved
  · cases moved
  rename_i ok
  rw [Option.map_eq_some_iff] at moved
  obtain ⟨calls, wrote, rfl⟩ := moved
  have hr := List.mem_of_find?_eq_some found
  have one := retry_jobs holds.calls keyed hr
  have progress := holds.progress
  rw [one] at progress
  have fresh : exec.holds row := by
    cases exec with
    | loaded | items => exact (progress.at_live here rfl).2.1.1
    | started | returned | raised => trivial
  refine holds.worked one wrote here (progress.effect (retry_hasKey holds.calls keyed hr).2 here
    (bulkStep_effect fresh stepped) (Bool.eq_false_iff.mpr ok) ?_)
  rintro rfl active
  cases event with
  | load => exact sole (id, .started) here rfl row hr (by simpa using List.find?_some found) active
  | markRunning | item | complete => cases stepped

theorem RetryInvariant.next {s t : RetryRun ι}
    (holds : RetryInvariant jobId (retryArgs requestHash request user) request.logs t₀ s)
    (fresh : Function.Injective jobId) (keyed : request.idempotencyKey = some key)
    {op : RetryOp ι} (sole : SoleExecution s op)
    (moved : (retryMachine jobId (retryArgs requestHash request user)).step s op = some t) :
    RetryInvariant jobId (retryArgs requestHash request user) request.logs t₀ t := by
  cases op with
  | request i =>
    obtain ⟨calls, called, rfl⟩ := Option.map_eq_some_iff.mp moved
    exact holds.called fresh keyed (call_effect called)
  | dispatch i => exact holds.dispatch moved
  | deliver id =>
    by_cases queued : id ∈ s.queue
    · cases (if_pos queued).symm.trans moved
      exact holds.deliver queued
    · cases (if_neg queued).symm.trans moved
  | step n event => exact holds.work keyed sole moved

end Invariant

section Result
variable {ι : Type} [Platform]

/-- No message waits and every execution returned. -/
def RetryRun.Settled (s : RetryRun ι) : Prop :=
  s.queue = [] ∧ ∀ e ∈ s.execs, ∃ status, e.2 = .returned status

variable {jobId : ι → Str} {requestHash : List LogIngestRequest → Str}
  {request : BulkLogIngestRequest} {user : ι → Nat} {t₀ : LogTables} {key : Str}

variable [DecidableEq ι]

end Result

instance [Platform] (s : RetryRun Bool) : (op : RetryOp Bool) → Decidable (SoleExecution s op)
  | .step n .load =>
    match here : s.execs[n]? with
    | none => isTrue (by rw [SoleExecution]; intro e he; rw [here] at he; cases he)
    | some e => decidable_of_iff (e.2 = .started → ∀ row ∈ s.calls.jobs, row.id = e.1 →
        skipsExecution row.status = false → ∀ other ∈ s.execs, other.2.live = false)
        (by simp [SoleExecution, here])
  | .step _ (.markRunning ..) | .step _ (.item ..) | .step _ (.complete ..) => isTrue trivial
  | .request _ | .dispatch _ | .deliver _ => isTrue trivial

end LogLens
