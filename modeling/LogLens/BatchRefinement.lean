import LogLens.Library.RowPosition
import LogLens.ProgressCounters

/-! An undisturbed run of the bulk task against `ingest_log` applied to the items
one at a time. Both are compared with `absorb`, an ingestion of the contents of
the tables: the rows without generated ids and server timestamps, where a log
names its group by the position of its row. -/

namespace LogLens
open LabelledMachine RowPosition

structure Contents where
  logs : List Log
  errorGroups : List ErrorGroup

def ErrorGroup.content (g : ErrorGroup) : ErrorGroup := { g with id := 0, createdAt := 0 }

def Log.content (groups : List ErrorGroup) (log : Log) : Log :=
  { log with
    id := 0
    errorGroupId := log.errorGroupId.map fun id => position ErrorGroup.id id groups
    createdAt := 0 }

def LogTables.content (t : LogTables) : Contents where
  logs := t.logs.map (Log.content t.errorGroups)
  errorGroups := t.errorGroups.map ErrorGroup.content

/-- What the schema promises of the tables: primary keys, the unique index of the
groups, the sequence of their ids and the foreign key of the logs. -/
structure LogTables.Valid (t : LogTables) : Prop where
  keys : (t.errorGroups.map ErrorGroup.key).Nodup
  ids : (t.errorGroups.map ErrorGroup.id).Nodup
  fresh : ∀ g ∈ t.errorGroups, g.id < t.nextGroupId
  bound : ∀ log ∈ t.logs, ∀ id ∈ log.errorGroupId, ∃ g ∈ t.errorGroups, g.id = id

/-- An item of a batch with the clock and the fault it meets. -/
abbrev BatchItem := LogIngestRequest × (Timestamp × PersistFault)

/-- `_persist_log` and the release of its savepoint do not raise. -/
def BatchItem.persists (item : BatchItem) : Bool :=
  (asUtcAware item.1.timestamp).isSome &&
    passes item.2.2 (.releaseSavepoint :: stepsFor item.1.logLevel)

/-- The indices of the items that fail. -/
def failedIndices (items : List BatchItem) : List Nat :=
  (items.zipIdx.filter fun p => !p.1.persists).map (·.2)

/-- One delivery, neither cut off nor with a commit that fails. -/
def undisturbed (started : Timestamp) (celeryTaskId : Option Str) (items : List BatchItem)
    (ended : Timestamp) : List CrashOp :=
  .deliver :: .step .load :: .step (.markRunning started celeryTaskId none) ::
    (items.map (fun item => .step (.item item.2.1 item.2.2 none)) ++
      [.step (.complete ended none)])

section Content

@[simp] theorem content_key (g : ErrorGroup) : g.content.key = g.key := rfl

theorem mergeInto_content (v : GroupValues) (g : ErrorGroup) :
    v.mergeInto g.content = (v.mergeInto g).content := by
  unfold GroupValues.mergeInto
  rw [content_key]
  split <;> rfl

theorem position_content (key : GroupKey) (groups : List ErrorGroup) :
    position ErrorGroup.key key (groups.map ErrorGroup.content) =
      position ErrorGroup.key key groups :=
  position_map content_key

/-- Logs whose groups stay where they are keep their content. -/
theorem content_logs {t : LogTables} (groups : List ErrorGroup)
    (same : ∀ g ∈ t.errorGroups,
      position ErrorGroup.id g.id groups = position ErrorGroup.id g.id t.errorGroups)
    (valid : t.Valid) :
    t.logs.map (Log.content groups) = t.logs.map (Log.content t.errorGroups) := by
  refine List.map_congr_left fun log hl => ?_
  unfold Log.content
  cases errorGroupId : log.errorGroupId with
  | none => rfl
  | some id =>
    obtain ⟨g, hg, rfl⟩ := valid.bound log hl id errorGroupId
    rw [Option.map_some, Option.map_some, same g hg]

theorem rolledBack_valid {t t' : LogTables} (valid : t.Valid) (rolled : RolledBack t t') :
    t'.Valid where
  keys := rolled.2.1 ▸ valid.keys
  ids := rolled.2.1 ▸ valid.ids
  fresh g hg := by
    have before := valid.fresh g (rolled.2.1 ▸ hg)
    have more := rolled.2.2.2
    omega
  bound log hl id own := by
    rw [rolled.1] at hl
    rw [rolled.2.1]
    exact valid.bound log hl id own

theorem rolledBack_content {t t' : LogTables} (rolled : RolledBack t t') :
    t'.content = t.content := by
  unfold LogTables.content
  rw [rolled.1, rolled.2.1]

end Content

section Absorb
variable [Platform]

/-- An ingestion of contents: the group of the key of a grouped log is merged into, or
added behind the others, and the log is added with its position. -/
def absorb (payload : LogIngestRequest) (timestamp : Timestamp) (c : Contents) : Contents :=
  if shouldGroup payload.logLevel then
    let v := groupValues payload timestamp
    let place := position ErrorGroup.key v.key c.errorGroups
    { logs := c.logs ++
        [logRow 0 payload timestamp (some (payloadFingerprint payload)) (some place) 0]
      errorGroups :=
        if place < c.errorGroups.length then c.errorGroups.map v.mergeInto
        else c.errorGroups ++ [v.inserted 0 0] }
  else { c with logs := c.logs ++ [logRow 0 payload timestamp none none 0] }

theorem Persists.valid {now : Timestamp} {payload : LogIngestRequest} {t t' : LogTables}
    {log : Log} (persists : Persists now payload t log t') (valid : t.Valid) : t'.Valid := by
  have keys := persists.keys valid.keys
  cases persists with
  | ungrouped aware level row =>
    refine ⟨keys, valid.ids, valid.fresh, fun log' hl id own => ?_⟩
    cases List.mem_append.mp hl with
    | inl old => exact valid.bound log' old id own
    | inr new =>
      rw [List.mem_singleton.mp new, row] at own
      cases own
  | @conflict timestamp log g aware level hg key row =>
    have merged := mergeInto_id (groupValues payload timestamp)
    refine ⟨keys, ?_, fun g' hg' => ?_, fun log' hl id own => ?_⟩
    · rw [column_map merged]
      exact valid.ids
    · obtain ⟨old, ho, rfl⟩ := List.mem_map.mp hg'
      rw [merged]
      exact (valid.fresh old ho).trans (Nat.lt_succ_self _)
    · have known : ∃ g ∈ t.errorGroups, g.id = id := by
        cases List.mem_append.mp hl with
        | inl old => exact valid.bound log' old id own
        | inr new =>
          rw [List.mem_singleton.mp new, row] at own
          exact ⟨g, hg, Option.some.inj own⟩
      obtain ⟨old, ho, same⟩ := known
      exact ⟨_, List.mem_map_of_mem ho, (merged old).trans same⟩
  | @inserted timestamp log aware level other row =>
    refine ⟨keys, ?_, fun g' hg' => ?_, fun log' hl id own => ?_⟩
    · rw [List.map_append, List.nodup_append]
      refine ⟨valid.ids, List.nodup_singleton _, fun old ho new hn => ?_⟩
      obtain ⟨g, hg, rfl⟩ := List.mem_map.mp ho
      have last : new = t.nextGroupId := by simpa [GroupValues.inserted] using hn
      have below := valid.fresh g hg
      omega
    · cases List.mem_append.mp hg' with
      | inl old => exact (valid.fresh g' old).trans (Nat.lt_succ_self _)
      | inr new =>
        rw [List.mem_singleton.mp new]
        exact Nat.lt_succ_self _
    · cases List.mem_append.mp hl with
      | inl old =>
        obtain ⟨g, hg, same⟩ := valid.bound log' old id own
        exact ⟨g, List.mem_append_left _ hg, same⟩
      | inr new =>
        rw [List.mem_singleton.mp new, row] at own
        exact ⟨_, List.mem_append_right _ List.mem_cons_self, Option.some.inj own⟩

theorem absorb_known {payload : LogIngestRequest} {timestamp : Timestamp} {c : Contents}
    (level : shouldGroup payload.logLevel = true) {place : Nat}
    (here : position ErrorGroup.key (groupValues payload timestamp).key c.errorGroups = place)
    (inside : place < c.errorGroups.length) :
    absorb payload timestamp c =
      { logs := c.logs ++
          [logRow 0 payload timestamp (some (payloadFingerprint payload)) (some place) 0]
        errorGroups := c.errorGroups.map (groupValues payload timestamp).mergeInto } := by
  simp only [absorb, level, if_true, here, if_pos inside]

theorem absorb_new {payload : LogIngestRequest} {timestamp : Timestamp} {c : Contents}
    (level : shouldGroup payload.logLevel = true)
    (last : position ErrorGroup.key (groupValues payload timestamp).key c.errorGroups =
      c.errorGroups.length) :
    absorb payload timestamp c =
      { logs := c.logs ++ [logRow 0 payload timestamp (some (payloadFingerprint payload))
          (some c.errorGroups.length) 0]
        errorGroups := c.errorGroups ++ [(groupValues payload timestamp).inserted 0 0] } := by
  simp only [absorb, level, if_true, last, lt_self_iff_false, if_false]

theorem logRow_content (now : Timestamp) (payload : LogIngestRequest) (timestamp : Timestamp)
    (fingerprint : Option Str) (groupId id : Nat) (groups : List ErrorGroup) :
    (logRow now payload timestamp fingerprint (some groupId) id).content groups =
      logRow 0 payload timestamp fingerprint (some (position ErrorGroup.id groupId groups)) 0 := by
  simp only [Log.content, logRow, Option.map_some]

/-- An ingestion that ends does to the contents what `absorb` does. -/
theorem Persists.absorbs {now : Timestamp} {payload : LogIngestRequest} {t t' : LogTables}
    {log : Log} (persists : Persists now payload t log t') (valid : t.Valid) :
    ∃ timestamp, asUtcAware payload.timestamp = some timestamp ∧
      t'.content = absorb payload timestamp t.content := by
  cases persists with
  | @ungrouped timestamp _ aware level row =>
    refine ⟨timestamp, aware, ?_⟩
    simp [absorb, level, LogTables.content, row, Log.content, logRow]
  | @conflict timestamp _ g aware level hg key row =>
    refine ⟨timestamp, aware, ?_⟩
    have merged := mergeInto_id (groupValues payload timestamp)
    -- the group found by its key is the one the log names by its id
    have place : position ErrorGroup.key (groupValues payload timestamp).key
        (t.errorGroups.map ErrorGroup.content) = position ErrorGroup.id g.id t.errorGroups := by
      rw [position_content, ← key, position_unique valid.keys valid.ids hg]
    have inside : position ErrorGroup.id g.id t.errorGroups <
        (t.errorGroups.map ErrorGroup.content).length := by
      rw [List.length_map]
      exact position_lt hg
    have old := content_logs (t.errorGroups.map (groupValues payload timestamp).mergeInto)
      (fun g _ => position_map merged) valid
    have groups : (t.errorGroups.map (groupValues payload timestamp).mergeInto).map
        ErrorGroup.content =
        (t.errorGroups.map ErrorGroup.content).map (groupValues payload timestamp).mergeInto := by
      simp [mergeInto_content]
    simp only [LogTables.content]
    rw [absorb_known level place inside, List.map_append, old, groups, row, List.map_singleton,
      logRow_content, position_map merged]
  | @inserted timestamp _ aware level other row =>
    refine ⟨timestamp, aware, ?_⟩
    have fresh : ∀ g ∈ t.errorGroups,
        g.id ≠ ((groupValues payload timestamp).inserted t.nextGroupId now).id :=
      fun g hg => (valid.fresh g hg).ne
    have last : position ErrorGroup.key (groupValues payload timestamp).key
        (t.errorGroups.map ErrorGroup.content) = (t.errorGroups.map ErrorGroup.content).length := by
      rw [position_content, List.length_map, position_absent other]
    have place : position ErrorGroup.id t.nextGroupId
        (t.errorGroups ++ [(groupValues payload timestamp).inserted t.nextGroupId now]) =
        (t.errorGroups.map ErrorGroup.content).length := by
      rw [List.length_map]
      exact position_new fresh
    have old := content_logs
      (t.errorGroups ++ [(groupValues payload timestamp).inserted t.nextGroupId now])
      (fun g hg => position_append hg _) valid
    simp only [LogTables.content]
    rw [absorb_new level last, List.map_append, old, List.map_append, row, List.map_singleton,
      logRow_content, place]
    rfl

/-- The contents after a log is ingested; a date out of range leaves them as they are. -/
def ingestContents (c : Contents) (payload : LogIngestRequest) : Contents :=
  match asUtcAware payload.timestamp with
  | none => c
  | some timestamp => absorb payload timestamp c

theorem Persists.content {now : Timestamp} {payload : LogIngestRequest} {t t' : LogTables}
    {log : Log} (persists : Persists now payload t log t') (valid : t.Valid) :
    t'.content = ingestContents t.content payload := by
  obtain ⟨timestamp, aware, same⟩ := persists.absorbs valid
  rw [same, ingestContents, aware]

end Absorb

section Batches
variable [Platform]

/-- `ingest_log` of one log after another, each at its own time. -/
def ingestInOrder : List (LogIngestRequest × Timestamp) → LogTables → Except Raised LogTables
  | [], t => .ok t
  | (payload, now) :: rest, t =>
    match ingestLog now none none payload t with
    | (.ok _, t) => ingestInOrder rest t
    | (.error e, _) => .error e

theorem persistInSavepoint_persists (item : BatchItem) (t : LogTables) :
    (∃ log t', persistInSavepoint item.2.1 item.2.2 item.1 t = (.ok log, t')) ↔
      item.persists = true := by
  rw [persistInSavepoint_ok_iff, persistLog_passes, BatchItem.persists, Bool.and_eq_true,
    passes_cons, Option.isSome_iff_ne_none]
  tauto

/-- An item that fails leaves nothing but used ids. -/
theorem persistInSavepoint_content (item : BatchItem) {t : LogTables} (valid : t.Valid) :
    (persistInSavepoint item.2.1 item.2.2 item.1 t).2.Valid ∧
      (persistInSavepoint item.2.1 item.2.2 item.1 t).2.content =
        if item.persists then ingestContents t.content item.1 else t.content := by
  have iff := persistInSavepoint_persists item t
  cases persisted : persistInSavepoint item.2.1 item.2.2 item.1 t with
  | mk result t' =>
    cases result with
    | ok log =>
      have persists := persistLog_ok (persistInSavepoint_ok persisted)
      rw [if_pos (iff.mp ⟨log, t', persisted⟩)]
      exact ⟨persists.valid valid, persists.content valid⟩
    | error e =>
      have rolled := persistInSavepoint_error persisted
      have fails : ¬ item.persists = true := by
        intro passes
        obtain ⟨log, t'', ok⟩ := iff.mpr passes
        simp [persisted] at ok
      rw [if_neg fails]
      exact ⟨rolledBack_valid valid rolled, rolledBack_content rolled⟩

theorem processBatch_content (items : List BatchItem) {t : LogTables} (valid : t.Valid) :
    (processBatch items t).content =
      ((items.filter BatchItem.persists).map Prod.fst).foldl ingestContents t.content := by
  induction items generalizing t with
  | nil => rfl
  | cons item rest ih =>
    have one := persistInSavepoint_content item valid
    change (processBatch rest (persistInSavepoint item.2.1 item.2.2 item.1 t).2).content = _
    rw [ih one.1, one.2]
    cases passes : item.persists <;> simp [passes]

/-- The items of a batch that do not fail are accepted one at a time. -/
theorem ingestInOrder_content (singles : List (LogIngestRequest × Timestamp)) {t : LogTables}
    (dated : ∀ single ∈ singles, asUtcAware single.1.timestamp ≠ none) (valid : t.Valid) :
    ∃ t', ingestInOrder singles t = .ok t' ∧
      t'.content = (singles.map Prod.fst).foldl ingestContents t.content := by
  induction singles generalizing t with
  | nil => exact ⟨t, rfl, rfl⟩
  | cons single rest ih =>
    have passes : passes none (stepsFor single.1.logLevel) = true := by
      simp [passes, raisedAt]
    obtain ⟨log, t', persisted⟩ := (persistLog_passes single.2 none single.1 t).mpr
      ⟨dated single List.mem_cons_self, passes⟩
    have persists := persistLog_ok persisted
    obtain ⟨last, ran, content⟩ := ih
      (fun other ho => dated other (List.mem_cons_of_mem _ ho)) (persists.valid valid)
    refine ⟨last, ?_, ?_⟩
    · rw [ingestInOrder, ingestLog, persisted, endTransaction]
      exact ran
    · rw [content, persists.content valid]
      rfl

end Batches

section Undisturbed

/-- A loop over `logs` from the tables `t₀` that is past the items of `done`. -/
structure LoopDone [Platform] (logs : List LogIngestRequest) (t₀ : LogTables)
    (done : List BatchItem) (s : CrashRun) : Prop where
  exec : s.exec = some (.items s.job logs done.length
    (done.filter BatchItem.persists).length s.job.failures)
  processed : s.job.processedItems = done.length
  succeeded : s.job.successCount = (done.filter BatchItem.persists).length
  failed : s.job.failureCount = (failedIndices done).length
  failures : s.job.failures.map BulkLogItemFailure.index = failedIndices done
  total : s.job.totalItems = logs.length
  tables : s.tables = processBatch done t₀

theorem failedIndices_append (done : List BatchItem) (item : BatchItem) :
    failedIndices (done ++ [item]) =
      failedIndices done ++ if item.persists then [] else [done.length] := by
  unfold failedIndices
  cases passes : item.persists <;> simp [List.zipIdx_append, List.filter_append, passes]

theorem failedIndices_nil_iff (items : List BatchItem) :
    failedIndices items = [] ↔ ∀ item ∈ items, item.persists = true := by
  unfold failedIndices
  rw [List.map_eq_nil_iff, List.filter_eq_nil_iff]
  constructor
  · intro all item hi
    obtain ⟨n, inside, rfl⟩ := List.getElem_of_mem hi
    have here : (items[n], n) ∈ items.zipIdx := by simp [List.mem_zipIdx_iff_getElem?]
    simpa using all _ here
  · intro all p hp
    have here : p.1 ∈ items := List.fst_mem_of_mem_zipIdx hp
    simp [all p.1 here]

variable [Platform]

theorem LoopDone.step {logs : List LogIngestRequest} {t₀ : LogTables} {done : List BatchItem}
    {s : CrashRun} (loop : LoopDone logs t₀ done s) {item : BatchItem}
    (here : logs[done.length]? = some item.1) :
    ∃ s', crashMachine.step s (.step (.item item.2.1 item.2.2 none)) = some s' ∧
      LoopDone logs t₀ (done ++ [item]) s' := by
  have iff := persistInSavepoint_persists item s.tables
  have tables : processBatch (done ++ [item]) t₀ =
      (persistInSavepoint item.2.1 item.2.2 item.1 s.tables).2 := by
    rw [loop.tables]
    exact processBatch_append done item.1 item.2.1 item.2.2 t₀
  have length : (done ++ [item]).length = done.length + 1 := by simp
  cases persisted : persistInSavepoint item.2.1 item.2.2 item.1 s.tables with
  | mk result t' =>
    rw [persisted] at tables
    cases result with
    | ok log =>
      have passes : item.persists = true := iff.mp ⟨log, t', persisted⟩
      have failed : failedIndices (done ++ [item]) = failedIndices done := by
        simp [failedIndices_append, passes]
      have counted : ((done ++ [item]).filter BatchItem.persists).length =
          (done.filter BatchItem.persists).length + 1 := by simp [passes]
      let row := itemProgress done.length ((done.filter BatchItem.persists).length + 1)
        s.job.failures s.job
      have moved : crashMachine.step s (.step (.item item.2.1 item.2.2 none)) =
          some ⟨row, t', some (.items row logs (done.length + 1)
            ((done.filter BatchItem.persists).length + 1) s.job.failures),
            (done.length, log) :: s.persisted⟩ := by
        simp only [crashMachine, CrashRun.next, loop.exec, Option.bind_some, bulkStep, here,
          Option.map_some, bulkItem, persisted, flushJob_itemProgress]
        rfl
      refine ⟨_, moved, ?_, length.symm, counted.symm, ?_, ?_, loop.total, tables.symm⟩
      · rw [length, counted]
        rfl
      · rw [failed, ← loop.failures, List.length_map]
        rfl
      · rw [failed]
        exact loop.failures
    | error e =>
      have fails : item.persists = false := by
        refine Bool.eq_false_iff.mpr fun passes => ?_
        obtain ⟨log, t'', ok⟩ := iff.mpr passes
        simp [persisted] at ok
      have failed : failedIndices (done ++ [item]) = failedIndices done ++ [done.length] := by
        simp [failedIndices_append, fails]
      have counted : ((done ++ [item]).filter BatchItem.persists).length =
          (done.filter BatchItem.persists).length := by simp [fails]
      have listed : (s.job.failures ++ [itemFailure done.length e]).map BulkLogItemFailure.index =
          failedIndices (done ++ [item]) := by
        rw [List.map_append, loop.failures, failed]
        rfl
      let failures := s.job.failures ++ [itemFailure done.length e]
      let row := itemProgress done.length (done.filter BatchItem.persists).length failures s.job
      have moved : crashMachine.step s (.step (.item item.2.1 item.2.2 none)) =
          some ⟨row, t', some (.items row logs (done.length + 1)
            (done.filter BatchItem.persists).length failures), s.persisted⟩ := by
        simp only [crashMachine, CrashRun.next, loop.exec, Option.bind_some, bulkStep, here,
          Option.map_some, bulkItem, persisted, flushJob_itemProgress]
        rfl
      refine ⟨_, moved, ?_, length.symm, counted.symm, ?_, listed, loop.total, tables.symm⟩
      · rw [length, counted]
        rfl
      · rw [← listed, List.length_map]
        rfl

/-- The loop goes through all items. -/
theorem LoopDone.run {logs : List LogIngestRequest} {t₀ : LogTables} {done : List BatchItem}
    {s : CrashRun} (loop : LoopDone logs t₀ done s) (items : List BatchItem)
    (batch : logs = (done ++ items).map Prod.fst) :
    ∃ s', crashMachine.run s
        (items.map fun item => .step (.item item.2.1 item.2.2 none)) = some s' ∧
      LoopDone logs t₀ (done ++ items) s' := by
  induction items generalizing done s with
  | nil => exact ⟨s, rfl, by simpa using loop⟩
  | cons item rest ih =>
    have here : logs[done.length]? = some item.1 := by simp [batch]
    obtain ⟨u, moved, next⟩ := loop.step here
    obtain ⟨s', ran, last⟩ := ih next (by simpa using batch)
    refine ⟨s', ?_, by simpa using last⟩
    rw [List.map_cons, run_cons, moved]
    exact ran

/-- What an undisturbed run of a batch leaves in the row of its job. -/
structure BatchRecord (items : List BatchItem) (job : BackgroundJob) : Prop where
  status : job.status = bulkFinalStatus (items.map Prod.fst)
    (items.filter BatchItem.persists).length (failedIndices items).length
  processed : job.processedItems = items.length
  total : job.totalItems = items.length
  succeeded : job.successCount = (items.filter BatchItem.persists).length
  failed : job.failureCount = (failedIndices items).length
  failures : job.failures.map BulkLogItemFailure.index = failedIndices items

theorem undisturbed_run (requestHash : List LogIngestRequest → Str)
    (request : BulkLogIngestRequest) (currentUser : Nat) (jobId : Str) (t₀ : LogTables)
    (items : List BatchItem) (batch : request.logs = items.map Prod.fst)
    (started : Timestamp) (celeryTaskId : Option Str) (ended : Timestamp) :
    ∃ s, crashMachine.run (bulkRun requestHash request currentUser jobId t₀)
        (undisturbed started celeryTaskId items ended) = some s ∧
      s.tables = processBatch items t₀ ∧ BatchRecord items s.job ∧
      s.exec = some (.returned s.job.status) := by
  let job := markRunning started celeryTaskId
    (newJob jobId (bulkJobArgs requestHash request currentUser))
  have entered : enterLoop job = .items job request.logs 0 0 [] :=
    enterLoop_logs job rfl (List.length_pos_iff.mp request.logs_length)
  have loop : LoopDone request.logs t₀ [] ⟨job, t₀, some (enterLoop job), []⟩ :=
    ⟨congrArg some entered, rfl, rfl, rfl, rfl, rfl, rfl⟩
  have begun : ∀ ops, crashMachine.run (bulkRun requestHash request currentUser jobId t₀)
      (.deliver :: .step .load :: .step (.markRunning started celeryTaskId none) :: ops) =
      crashMachine.run ⟨job, t₀, some (enterLoop job), []⟩ ops := by
    intro ops
    simp only [run_cons, crashMachine, CrashRun.next, bulkRun, Option.all_none, if_true,
      Option.bind_some, bulkStep, bulkLoad, newJob, skipsExecution, Option.map_some]
    simp [job, newJob]
  obtain ⟨s, ran, done⟩ := loop.run items batch
  let status := bulkFinalStatus request.logs (items.filter BatchItem.persists).length
    s.job.failures.length
  let final : CrashRun := ⟨markCompleted ended status (failureSummary s.job.failures) s.job,
    s.tables, some (.returned status), s.persisted⟩
  have last : crashMachine.step s (.step (.complete ended none)) = some final := by
    simp [crashMachine, CrashRun.next, done.exec, bulkStep, batch, status, final]
  have failed : s.job.failures.length = (failedIndices items).length := by
    have listed := congrArg List.length done.failures
    simpa using listed
  refine ⟨final, ?_, done.tables, ⟨?_, done.processed, ?_, done.succeeded, done.failed,
    done.failures⟩, rfl⟩
  · rw [undisturbed, begun, run_append, ran, Option.bind_some, run_cons, last]
    rfl
  · change status = _
    simp only [status]
    rw [failed, batch]
  · have length := congrArg List.length batch
    rw [List.length_map] at length
    exact done.total.trans length

/-- An undisturbed run leaves the contents that `ingest_log` leaves when it is applied to the
items that do not fail, one at a time and at any times. -/
theorem bulk_refines_single (requestHash : List LogIngestRequest → Str)
    (request : BulkLogIngestRequest) (currentUser : Nat) (jobId : Str) (t₀ : LogTables)
    (valid : t₀.Valid) (items : List BatchItem) (batch : request.logs = items.map Prod.fst)
    (started : Timestamp) (celeryTaskId : Option Str) (ended : Timestamp)
    (singles : List (LogIngestRequest × Timestamp))
    (same : singles.map Prod.fst = (items.filter BatchItem.persists).map Prod.fst) :
    ∃ s t, crashMachine.run (bulkRun requestHash request currentUser jobId t₀)
        (undisturbed started celeryTaskId items ended) = some s ∧
      ingestInOrder singles t₀ = .ok t ∧ s.tables.content = t.content ∧
      s.exec = some (.returned s.job.status) ∧ BatchRecord items s.job := by
  obtain ⟨s, ran, tables, record, returned⟩ := undisturbed_run requestHash request currentUser
    jobId t₀ items batch started celeryTaskId ended
  have dated : ∀ single ∈ singles, asUtcAware single.1.timestamp ≠ none := by
    intro single hs
    have kept : single.1 ∈ (items.filter BatchItem.persists).map Prod.fst :=
      same ▸ List.mem_map_of_mem hs
    obtain ⟨item, hi, own⟩ := List.mem_map.mp kept
    have persists := (List.mem_filter.mp hi).2
    rw [BatchItem.persists, Bool.and_eq_true, Option.isSome_iff_ne_none, own] at persists
    exact persists.1
  obtain ⟨t, accepted, content⟩ := ingestInOrder_content singles dated valid
  refine ⟨s, t, ran, accepted, ?_, returned, record⟩
  rw [tables, processBatch_content items valid, content, same]

/-- The status as `JobService.final_status` defines it. -/
structure TruthfulStatus (items : List BatchItem) (status : BackgroundJobStatus) : Prop where
  completed : status = .completed ↔ ∀ item ∈ items, item.persists = true
  failed : status = .failed ↔ ∀ item ∈ items, item.persists = false
  partially : status = .partiallyCompleted ↔
    (∃ item ∈ items, item.persists = true) ∧ ∃ item ∈ items, item.persists = false

omit [Platform] in
theorem bulkFinalStatus_eq {logs : List LogIngestRequest} (nonempty : logs ≠ [])
    (successCount failureCount : Nat) : bulkFinalStatus logs successCount failureCount =
      if failureCount = 0 then .completed else .partiallyCompleted := by
  have some : logs.isEmpty = false := by simpa using nonempty
  unfold bulkFinalStatus finalStatus
  rw [some]
  split <;> split <;> simp_all

/-- A bulk job ends completed if every item was persisted, and partially completed otherwise,
also when none was. -/
theorem bulk_terminal_status (requestHash : List LogIngestRequest → Str)
    (request : BulkLogIngestRequest) (currentUser : Nat) (jobId : Str) (t₀ : LogTables)
    (items : List BatchItem) (batch : request.logs = items.map Prod.fst)
    (started : Timestamp) (celeryTaskId : Option Str) (ended : Timestamp) :
    ∃ s, crashMachine.run (bulkRun requestHash request currentUser jobId t₀)
        (undisturbed started celeryTaskId items ended) = some s ∧
      s.exec = some (.returned s.job.status) ∧
      (s.job.status = .completed ↔ ∀ item ∈ items, item.persists = true) ∧
      (s.job.status = .partiallyCompleted ↔ ∃ item ∈ items, item.persists = false) ∧
      s.job.status ≠ .failed := by
  obtain ⟨s, ran, -, record, returned⟩ := undisturbed_run requestHash request currentUser
    jobId t₀ items batch started celeryTaskId ended
  have nonempty : items.map Prod.fst ≠ [] := batch ▸ List.length_pos_iff.mp request.logs_length
  have status := record.status
  have clean : (failedIndices items).length = 0 ↔ ∀ item ∈ items, item.persists = true := by
    rw [List.length_eq_zero_iff, failedIndices_nil_iff]
  have some : (∃ item ∈ items, item.persists = false) ↔
      ¬ ∀ item ∈ items, item.persists = true := by simp
  rw [bulkFinalStatus_eq nonempty] at status
  refine ⟨s, ran, returned, ?_⟩
  by_cases all : ∀ item ∈ items, item.persists = true
  · rw [if_pos (clean.mpr all)] at status
    rw [status, some]
    exact ⟨iff_of_true rfl all, iff_of_false (by decide) (not_not.mpr all), by decide⟩
  · rw [if_neg (mt clean.mp all)] at status
    rw [status, some]
    exact ⟨iff_of_false (by decide) all, iff_of_true rfl all, by decide⟩

end Undisturbed

/-- One item at level `info`, which persists if no statement raises. -/
def infoItem (fault : PersistFault) : BatchItem :=
  (minimalRequest .info { clock := 0, utcoffset := none }, 0, fault)

theorem logTables_valid_empty : LogTables.Valid {} where
  keys := List.nodup_nil
  ids := List.nodup_nil
  fresh := by simp
  bound := by simp

/-- The second of two items fails. -/
theorem bulk_refines_single_partly :
    letI := asciiPlatform
    ∃ s t, crashMachine.run (bulkRun (fun _ => []) pairRequest 1 ['j'] {})
        (undisturbed 0 none [infoItem none, infoItem (some (.flushLog, []))] 1) = some s ∧
      ingestInOrder [(minimalRequest .info { clock := 0, utcoffset := none }, 5)] {} = .ok t ∧
      s.tables.content = t.content ∧ s.exec = some (.returned s.job.status) ∧
      BatchRecord [infoItem none, infoItem (some (.flushLog, []))] s.job := by
  let _ := asciiPlatform
  exact bulk_refines_single _ pairRequest 1 ['j'] {} logTables_valid_empty _ rfl 0 none 1 _
    (by decide)

theorem bulk_terminal_status_partly :
    letI := asciiPlatform
    ∃ s, crashMachine.run (bulkRun (fun _ => []) pairRequest 1 ['j'] {})
        (undisturbed 0 none [infoItem none, infoItem (some (.flushLog, []))] 1) = some s ∧
      s.job.status = .partiallyCompleted := by
  let _ := asciiPlatform
  obtain ⟨s, ran, -, -, partly, -⟩ := bulk_terminal_status (fun _ => []) pairRequest 1 ['j'] {}
    [infoItem none, infoItem (some (.flushLog, []))] rfl 0 none 1
  exact ⟨s, ran, partly.mpr ⟨infoItem (some (.flushLog, [])), by simp, by decide⟩⟩

/-- No item of a batch is persisted, and the job ends partially completed. -/
theorem bulk_terminal_status_untruthful :
    ¬ ∀ (request : BulkLogIngestRequest) (items : List BatchItem) (s : CrashRun),
      request.logs = items.map Prod.fst →
      (@crashMachine asciiPlatform).run (bulkRun (fun _ => []) request 1 ['j'] {})
        (undisturbed 0 none items 1) = some s → TruthfulStatus items s.job.status := by
  let _ := asciiPlatform
  intro truthful
  let items := [infoItem (some (.flushLog, [])), infoItem (some (.flushLog, []))]
  obtain ⟨s, ran⟩ : ∃ s, crashMachine.run (bulkRun (fun _ => []) pairRequest 1 ['j'] {})
      (undisturbed 0 none items 1) = some s :=
    Option.isSome_iff_exists.mp (by decide)
  have status : (crashMachine.run (bulkRun (fun _ => []) pairRequest 1 ['j'] {})
      (undisturbed 0 none items 1)).map (fun s => s.job.status) = some .partiallyCompleted := by
    decide
  rw [ran, Option.map_some, Option.some.injEq] at status
  have failed := (truthful pairRequest items s rfl ran).failed.mpr (by decide)
  rw [status] at failed
  cases failed

end LogLens
