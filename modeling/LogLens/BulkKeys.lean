import LogLens.RequestHash

/-! Bulk requests under idempotency keys: the logs that a job stands for. -/

namespace LogLens
open LabelledMachine

section Calls
variable {ι : Type} {jobId : ι → Str} {args : ι → CreateJobArgs}

/-- A call without a scope that ends in IntegrityError lost its key to a committed row. -/
def BrokenByKey (args : ι → CreateJobArgs) (s : JobCalls ι) : Prop :=
  ∀ i seen, s.phase i = .finished (.error integrityError) seen → (args i).scopeKey = none →
    ∃ key, (args i).idempotencyKey = some key ∧
      ∃ row ∈ s.jobs, row.hasKey (args i).jobType key = true

theorem BrokenByKey.mono {s t : JobCalls ι} (holds : BrokenByKey args s)
    (kept : ∀ row ∈ s.jobs, ∃ row' ∈ t.jobs, SameCall row' row) {i : ι}
    (same : t.phase i = s.phase i) {seen : List BackgroundJob}
    (done : t.phase i = .finished (.error integrityError) seen)
    (unscoped : (args i).scopeKey = none) :
    ∃ key, (args i).idempotencyKey = some key ∧
      ∃ row ∈ t.jobs, row.hasKey (args i).jobType key = true := by
  obtain ⟨key, own, row, hr, keyed⟩ := holds i seen (same ▸ done) unscoped
  obtain ⟨row', hr', call⟩ := kept row hr
  exact ⟨key, own, row', hr', call.hasKey keyed⟩

theorem write_kept {s t : JobCalls ι} (holds : CallsInvariant jobId args s)
    {written : BackgroundJob} (moved : s.write written = some t) :
    ∀ row ∈ s.jobs, ∃ row' ∈ t.jobs, SameCall row' row := by
  obtain ⟨rfl, ⟨own, hown, call⟩, -⟩ := write_rows moved
  intro row hr
  refine ⟨writeRow written row, List.mem_map_of_mem hr, ?_⟩
  unfold writeRow
  split
  · rename_i sameId
    cases List.inj_on_of_nodup_map holds.ids hown hr (call.1.symm.trans sameId.symm)
    exact call
  · exact SameCall.refl row

variable [DecidableEq ι]

theorem BrokenByKey.next {s t : JobCalls ι} (holds : BrokenByKey args s)
    (calls : CallsInvariant jobId args s) (fresh : Function.Injective jobId) {op : CallOp ι}
    (moved : (callMachine jobId args).step s op = some t) : BrokenByKey args t := by
  cases op with
  | write written =>
    intro i seen done unscoped
    have same : t.phase i = s.phase i := by rw [(write_rows moved).1]
    exact holds.mono (write_kept calls moved) same done unscoped
  | call k =>
    have effect := call_effect moved
    have kept : ∀ row ∈ s.jobs, ∃ row' ∈ t.jobs, SameCall row' row := by
      intro row hr
      refine ⟨row, ?_, SameCall.refl row⟩
      obtain rows | rows := call_jobs effect
      · exact rows ▸ hr
      · exact rows ▸ List.mem_append_left _ hr
    intro i seen done unscoped
    by_cases other : i = k
    · subst other
      cases effect with
      | answers _ _ other =>
        simp only [JobCalls.finish, JobCalls.goto, Function.update_self,
          CallPhase.finished.injEq] at done
        exact absurd (.inl done.1) other
      | rejects =>
        simp only [JobCalls.finish, JobCalls.goto, Function.update_self,
          CallPhase.finished.injEq] at done
        exact absurd (Except.error.inj done.1) dbapiError_ne_integrityError
      | passes _ next =>
        simp only [JobCalls.goto, Function.update_self] at done
        subst done
        obtain ⟨⟨⟩⟩ | ⟨⟨⟩⟩ := next
      | clashes phase clash =>
        obtain ⟨row, hr, clash⟩ := clash
        obtain sameId | ⟨key, own, keyed⟩ | ⟨scope, own, -⟩ := conflicts_iff.mp clash
        · refine absurd sameId.symm (calls.unfinished fresh ?_ hr)
          rw [phase]
          rintro _ _ ⟨⟩
        · exact ⟨key, own, row, hr, keyed⟩
        · have named := (activeIn_iff.mp own).2.1
          exact absurd (named.symm.trans unscoped) (by rintro ⟨⟩)
      | inserts =>
        simp only [JobCalls.goto, Function.update_self] at done
        cases done
      | publishes =>
        simp only [JobCalls.finish, JobCalls.goto, Function.update_self] at done
        cases done
    · exact holds.mono kept (call_phase effect (.inl other)) done unscoped

omit [DecidableEq ι] in
/-- Once a call of a key is answered, and not for what it sends, a row of the key is committed. -/
theorem keyed_row {s : JobCalls ι} (calls : CallsInvariant jobId args s)
    (broken : BrokenByKey args s) {i : ι} {answer : Except Raised BackgroundJob}
    {seen : List BackgroundJob} (done : s.phase i = .finished answer seen)
    (sent : answer ≠ .error dbapiError) {key : Str} (own : (args i).idempotencyKey = some key)
    (unscoped : (args i).scopeKey = none) :
    ∃ row ∈ s.jobs, row.hasKey (args i).jobType key = true := by
  cases calls.answered i answer seen done with
  | created here call => exact ⟨_, here, call.hasKey (hasKey_iff.mpr ⟨rfl, own⟩)⟩
  | replayed own' _ keyed here call =>
    cases own.symm.trans own'
    exact ⟨_, here, call.hasKey keyed⟩
  | refused named => exact absurd (named.symm.trans unscoped) (by rintro ⟨⟩)
  | broken =>
    obtain ⟨key', own', row, hr, keyed⟩ := broken i seen done unscoped
    cases own.symm.trans own'
    exact ⟨row, hr, keyed⟩
  | rejected => exact absurd rfl sent

omit [DecidableEq ι] in
/-- A call of a key whose row is committed is answered by the hash of the row. -/
theorem keyed_answer {s : JobCalls ι} (calls : CallsInvariant jobId args s) {i : ι}
    {answer : Except Raised BackgroundJob} {seen : List BackgroundJob}
    (done : s.phase i = .finished answer seen) {key : Str}
    (own : (args i).idempotencyKey = some key) (unscoped : (args i).scopeKey = none)
    {row : BackgroundJob} (hr : row ∈ s.jobs) (keyed : row.hasKey (args i).jobType key = true)
    {old new : Str} (hold : row.payload.requestHash = some old)
    (hnew : (args i).payload.requestHash = some new) :
    answer = .error integrityError ∨ (answer = .error dbapiError ∧ ¬ (args i).Storable) ∨
      old = new ∧ (∃ job, answer = .ok job ∧ job.id = row.id) ∨
      old ≠ new ∧ answer = .error (.app keyConflict) := by
  cases calls.answered i answer seen done with
  | created here call =>
    cases calls.sameKey here hr (call.hasKey (hasKey_iff.mpr ⟨rfl, own⟩)) keyed
    have hash : row.payload.requestHash = (args i).payload.requestHash := call.2.2.2.2.1
    rw [hold, hnew, Option.some.injEq] at hash
    exact .inr (.inr (.inl ⟨hash, _, rfl, call.1.symm⟩))
  | @replayed _ _ _ existing own' _ keyed' here call =>
    cases own.symm.trans own'
    cases calls.sameKey here hr (call.hasKey keyed') keyed
    have hash : existing.payload.requestHash = some old := call.2.2.2.2.1.symm.trans hold
    obtain ⟨replayed, equal⟩ | ⟨replayed, different⟩ := replayJob_cases (args i) existing
    · exact .inr (.inr (.inl ⟨equal old new hash hnew, existing, replayed, call.1.symm⟩))
    · rw [hash, hnew, ne_eq, Option.some.injEq] at different
      exact .inr (.inr (.inr ⟨different, replayed⟩))
  | refused named => exact absurd (named.symm.trans unscoped) (by rintro ⟨⟩)
  | broken => exact .inl rfl
  | rejected unstorable => exact .inr (.inl ⟨rfl, unstorable⟩)

end Calls

section Bulk

/-- The request with its logs as the payload of its job holds them. -/
def BulkLogIngestRequest.dumped (payload : BulkLogIngestRequest) : BulkLogIngestRequest :=
  { payload with
    logs := payload.logs.map LogIngestRequest.dumped
    logs_length := by
      rw [List.length_map]
      exact payload.logs_length }

variable {ι : Type} [DecidableEq ι] [Platform] (timestampText : Datetime → Str) (jobId : ι → Str)
  (requests : ι → BulkLogIngestRequest) (users : ι → Nat)

/-- The call of `create_job` by a bulk request. -/
def bulkArgs (i : ι) : CreateJobArgs :=
  bulkJobArgs (requestHash timestampText) (requests i).dumped (users i)

/-- The calls of `create_job` by `enqueue_bulk_ingestion_job`. -/
def bulkCalls : Machine (JobCalls ι) (CallOp ι) :=
  callMachine jobId (bulkArgs timestampText requests users)

/-- The job of a call, whatever workers wrote to it since. -/
def JobOf (s : JobCalls ι) (k : ι) : Prop :=
  ∃ row ∈ s.jobs, row.id = jobId k ∧ row.jobType = .bulkLogIngest ∧
    row.idempotencyKey = (requests k).idempotencyKey ∧
    row.payload.logs = some (requests k).dumped.logs

/-- Without a key a bulk request gets a job of its own. The requests of one key get the job of
one of them if they list its logs, and a conflict if they do not. The database refuses only
requests with values that it does not store. -/
theorem bulk_key_exact (hash : Function.Injective Platform.sha256Hex)
    (fresh : Function.Injective jobId)
    (texts : ∀ i k, ∀ a ∈ (requests i).logs, ∀ b ∈ (requests k).logs,
      timestampText a.timestamp = timestampText b.timestamp → a.timestamp = b.timestamp)
    (metadata : ∀ i, ∀ item ∈ (requests i).logs, item.metadata.jsonMode.wellFormed = true)
    (ops : List (CallOp ι)) (s : JobCalls ι)
    (ran : (bulkCalls timestampText jobId requests users).run {} ops = some s) :
    (∀ i answer seen, (requests i).idempotencyKey = none → s.phase i = .finished answer seen →
      (∃ job, answer = .ok job ∧ job.id = jobId i) ∧ JobOf jobId requests s i ∨
      answer = .error dbapiError ∧ ¬ (bulkArgs timestampText requests users i).Storable) ∧
    ∀ key, (∃ i answer seen, (requests i).idempotencyKey = some key ∧
        s.phase i = .finished answer seen ∧ answer ≠ .error dbapiError) →
      ∃ k, (requests k).idempotencyKey = some key ∧ JobOf jobId requests s k ∧
        (∀ row ∈ s.jobs, row.hasKey .bulkLogIngest key = true → row.id = jobId k) ∧
        ∀ i answer seen, (requests i).idempotencyKey = some key →
          s.phase i = .finished answer seen → answer = .error integrityError ∨
          (answer = .error dbapiError ∧ ¬ (bulkArgs timestampText requests users i).Storable) ∨
          List.Forall₂ SameItem (requests k).logs (requests i).logs ∧
            (∃ job, answer = .ok job ∧ job.id = jobId k) ∨
          ¬ List.Forall₂ SameItem (requests k).logs (requests i).logs ∧
            answer = .error (.app keyConflict) := by
  have holds : CallsInvariant jobId (bulkArgs timestampText requests users) s ∧
      BrokenByKey (bulkArgs timestampText requests users) s := by
    refine run_invariant (I := fun s => CallsInvariant jobId _ s ∧ BrokenByKey _ s)
      (fun s t op holds moved => ⟨holds.1.next fresh moved, holds.2.next holds.1 fresh moved⟩)
      ⟨callsInvariant_initial, ?_⟩ ran
    rintro i seen ⟨⟩
  obtain ⟨calls, broken⟩ := holds
  refine ⟨fun i answer seen unkeyed done => ?_, fun key ⟨i, answer, seen, own, done, sent⟩ => ?_⟩
  · cases calls.answered i answer seen done with
    | created here call =>
      exact .inl ⟨⟨_, rfl, rfl⟩, _, here, call.1, call.2.1, call.2.2.1, call.2.2.2.2.2⟩
    | replayed own => exact absurd (own.symm.trans unkeyed) (by rintro ⟨⟩)
    | refused named => cases named
    | broken =>
      obtain ⟨key, own, -⟩ := broken i seen done rfl
      exact absurd (own.symm.trans unkeyed) (by rintro ⟨⟩)
    | rejected unstorable => exact .inr ⟨rfl, unstorable⟩
  · obtain ⟨row, hr, keyed⟩ := keyed_row calls broken done sent own rfl
    obtain ⟨k, -, -, -, call⟩ := calls.committed row hr
    have ownK : (requests k).idempotencyKey = some key :=
      call.2.2.1.symm.trans (hasKey_iff.mp keyed).2
    refine ⟨k, ownK, ⟨row, hr, call.1, call.2.1, call.2.2.1, call.2.2.2.2.2⟩, ?_, ?_⟩
    · intro row' hr' keyed'
      rw [calls.sameKey hr' hr keyed' keyed]
      exact call.1
    · intro i answer seen own done
      have rowId : row.id = jobId k := call.1
      have logs := request_hash_exact timestampText hash (texts k i)
        (List.forall_mem_append.mpr ⟨metadata k, metadata i⟩)
      rw [← requestHash_dumped, ← requestHash_dumped timestampText (requests i).logs] at logs
      rw [← logs, ← rowId]
      exact keyed_answer calls done own rfl hr keyed call.2.2.2.2.1 rfl

end Bulk

def shuffledRequest (second : Bool) : BulkLogIngestRequest where
  idempotencyKey := some "abcdefgh".toList
  logs := [shuffledItem second]
  logs_length := le_refl 1

def CallPhase.answeredId : CallPhase → Option Str
  | .finished (.ok job) _ => some job.id
  | _ => none

theorem answeredId_some {phase : CallPhase} {id : Str} (h : phase.answeredId = some id) :
    ∃ job seen, phase = .finished (.ok job) seen ∧ job.id = id := by
  unfold CallPhase.answeredId at h
  split at h
  · cases h
    exact ⟨_, _, rfl, rfl⟩
  · cases h

/-- The second request is answered with the job of the first. -/
theorem bulk_key_exact_shuffled :
    letI := asciiPlatform
    let calls := bulkCalls epochText twinId shuffledRequest fun _ => 1
    ∃ s, calls.run {} [.call false, .call false, .call false, .call false, .call true] = some s ∧
      ∃ job seen, s.phase true = .finished (.ok job) seen ∧ job.id = twinId false ∧
        JobOf twinId shuffledRequest s false := by
  let := asciiPlatform
  intro calls
  obtain ⟨s, ran, answered⟩ : ∃ s, calls.run {} [.call false, .call false, .call false,
      .call false, .call true] = some s ∧ (s.phase true).answeredId = some (twinId false) :=
    Option.map_eq_some_iff.mp (by decide +kernel)
  refine ⟨s, ran, ?_⟩
  obtain ⟨job, seen, done, first⟩ := answeredId_some answered
  obtain ⟨-, keyed⟩ := bulk_key_exact epochText twinId shuffledRequest (fun _ => 1)
    (fun _ _ same => same) twinId_injective (fun i k a ha b hb _ => by
      rw [List.mem_singleton.mp ha, List.mem_singleton.mp hb]
      rfl)
    (by decide) _ s ran
  obtain ⟨k, -, committed, -, answers⟩ := keyed _ ⟨true, _, seen, rfl, done, by rintro ⟨⟩⟩
  obtain ⟨⟨⟩⟩ | ⟨⟨⟩, -⟩ | ⟨-, own, answer, sameId⟩ | ⟨-, ⟨⟩⟩ := answers true _ seen rfl done
  obtain rfl := Except.ok.inj answer
  obtain rfl : k = false := twinId_injective (sameId.symm.trans first)
  exact ⟨job, seen, done, first, committed⟩

end LogLens
