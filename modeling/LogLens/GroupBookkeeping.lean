import LogLens.Ingestion
import LogLens.Library.LabelledMachine

/-! Runs of the operations that write `logs` and `error_groups`, one transaction
after another, and what holds of the tables after every one of them. `ingested`
lists the committed inserts, the last one first. -/

namespace LogLens
open LabelledMachine

structure LogRun where
  tables : LogTables := {}
  ingested : List (LogIngestRequest × Log) := []

inductive LogOp
  | ingestLog (now : Timestamp) (fault : PersistFault) (commitError : Option Str)
      (payload : LogIngestRequest)
  | persistItem (now : Timestamp) (fault : PersistFault) (commitError : Option Str)
      (payload : LogIngestRequest)
  | deleteLog (logId : Nat) (commitError : Option Str)
  | cleanupBatch (threshold : Timestamp) (batchSize : Nat) (commitError : Option Str)
  | updateStatus (groupId : Nat) (status : ErrorGroupStatus) (commitError : Option Str)
  | updateAssignment (users : List User) (currentUser : User) (groupId : Nat)
      (assignedTo : Option Nat) (commitError : Option Str)

def LogRun.record (s : LogRun) (payload : LogIngestRequest) :
    Except Raised Log × LogTables → LogRun
  | (.ok log, t) => ⟨t, (payload, log) :: s.ingested⟩
  | (.error _, t) => { s with tables := t }

def LogRun.apply [Platform] (s : LogRun) : LogOp → LogRun
  | .ingestLog now fault commitError payload =>
    s.record payload (ingestLog now fault commitError payload s.tables)
  | .persistItem now fault commitError payload =>
    s.record payload (persistItem now fault commitError payload s.tables)
  | .deleteLog logId commitError => { s with tables := (deleteLog logId commitError s.tables).2 }
  | .cleanupBatch threshold batchSize commitError =>
    { s with tables := (cleanupBatch threshold batchSize commitError s.tables).2 }
  | .updateStatus groupId status commitError =>
    { s with tables := (updateStatus groupId status commitError s.tables).2 }
  | .updateAssignment users currentUser groupId assignedTo commitError =>
    { s with
      tables := (updateAssignment users currentUser groupId assignedTo commitError s.tables).2 }

def logMachine [Platform] : Machine LogRun LogOp := ⟨fun s op => some (s.apply op)⟩

/-- Empty tables. -/
def LogRun.Initial (s : LogRun) : Prop := s = {}

/-- The logs ever committed with an id of a group. -/
def LogRun.boundTo (s : LogRun) (groupId : Nat) : List (LogIngestRequest × Log) :=
  s.ingested.filter fun p => p.2.errorGroupId = some groupId

section Effects

theorem deleteLog_rows (logId : Nat) (commitError : Option Str) (t : LogTables) :
    (deleteLog logId commitError t).2.logs.Sublist t.logs ∧
      (deleteLog logId commitError t).2.errorGroups = t.errorGroups ∧
      (deleteLog logId commitError t).2.nextLogId = t.nextLogId ∧
      (deleteLog logId commitError t).2.nextGroupId = t.nextGroupId := by
  unfold deleteLog
  split
  · exact ⟨List.Sublist.refl _, rfl, rfl, rfl⟩
  · cases commitError with
    | none => exact ⟨List.filter_sublist, rfl, rfl, rfl⟩
    | some _ => exact ⟨List.Sublist.refl _, rfl, rfl, rfl⟩

theorem cleanupBatch_rows (threshold : Timestamp) (batchSize : Nat) (commitError : Option Str)
    (t : LogTables) :
    (cleanupBatch threshold batchSize commitError t).2.logs.Sublist t.logs ∧
      (cleanupBatch threshold batchSize commitError t).2.errorGroups = t.errorGroups ∧
      (cleanupBatch threshold batchSize commitError t).2.nextLogId = t.nextLogId ∧
      (cleanupBatch threshold batchSize commitError t).2.nextGroupId = t.nextGroupId := by
  have unchanged : t.logs.Sublist t.logs ∧ t.errorGroups = t.errorGroups ∧
      t.nextLogId = t.nextLogId ∧ t.nextGroupId = t.nextGroupId :=
    ⟨List.Sublist.refl _, rfl, rfl, rfl⟩
  unfold cleanupBatch
  dsimp only
  split
  · split
    · exact unchanged
    · split
      · exact unchanged
      · cases commitError with
        | none => exact ⟨List.filter_sublist, rfl, rfl, rfl⟩
        | some _ => exact unchanged
  · exact unchanged

/-- A triage edit rewrites groups in the columns `status` and `assigned_to` only. -/
def Triage (t t' : LogTables) : Prop :=
  ∃ f : ErrorGroup → ErrorGroup, t' = { t with errorGroups := t.errorGroups.map f } ∧
    ∀ g, ∃ status assignedTo, f g = { g with status := status, assignedTo := assignedTo }

theorem Triage.refl (t : LogTables) : Triage t t :=
  ⟨id, by simp, fun g => ⟨g.status, g.assignedTo, rfl⟩⟩

theorem Triage.columns {f : ErrorGroup → ErrorGroup}
    (edited : ∀ g, ∃ status assignedTo, f g = { g with status := status, assignedTo := assignedTo })
    (g : ErrorGroup) : (f g).id = g.id ∧ (f g).key = g.key ∧
      (f g).occurrenceCount = g.occurrenceCount ∧ (f g).firstSeen = g.firstSeen ∧
      (f g).lastSeen = g.lastSeen := by
  obtain ⟨status, assignedTo, same⟩ := edited g
  rw [same]
  exact ⟨rfl, rfl, rfl, rfl, rfl⟩

theorem editGroup_triage (t : LogTables) (groupId : Nat) {edit : ErrorGroup → ErrorGroup}
    (columns : ∀ g, ∃ status assignedTo,
      edit g = { g with status := status, assignedTo := assignedTo }) :
    Triage t (t.editGroup groupId edit) := by
  refine ⟨_, rfl, fun g => ?_⟩
  split
  · exact columns g
  · exact ⟨g.status, g.assignedTo, rfl⟩

theorem updateStatus_triage (groupId : Nat) (status : ErrorGroupStatus) (commitError : Option Str)
    (t : LogTables) : Triage t (updateStatus groupId status commitError t).2 := by
  unfold updateStatus
  split
  · exact .refl t
  · cases commitError with
    | none => exact editGroup_triage t groupId fun g => ⟨status, g.assignedTo, rfl⟩
    | some _ => exact .refl t

theorem updateAssignment_triage (users : List User) (currentUser : User) (groupId : Nat)
    (assignedTo : Option Nat) (commitError : Option Str) (t : LogTables) :
    Triage t (updateAssignment users currentUser groupId assignedTo commitError t).2 := by
  unfold updateAssignment
  split
  · exact .refl t
  · split
    · exact .refl t
    · split
      · exact .refl t
      · cases commitError with
        | none => exact editGroup_triage t groupId fun g => ⟨g.status, assignedTo, rfl⟩
        | some _ => exact .refl t

variable [Platform]

/-- What one operation does to the tables and the committed inserts. -/
inductive LogEffect (s : LogRun) : LogRun → Prop
  | inserts {now : Timestamp} {payload : LogIngestRequest} {log : Log} {t : LogTables} :
    Persists now payload s.tables log t → LogEffect s ⟨t, (payload, log) :: s.ingested⟩
  | removes {t : LogTables} : t.logs.Sublist s.tables.logs →
    t.errorGroups = s.tables.errorGroups → s.tables.nextLogId ≤ t.nextLogId →
    s.tables.nextGroupId ≤ t.nextGroupId → LogEffect s ⟨t, s.ingested⟩
  | edits {t : LogTables} : Triage s.tables t → LogEffect s ⟨t, s.ingested⟩

theorem RolledBack.effect {s : LogRun} {t : LogTables} (rolled : RolledBack s.tables t) :
    LogEffect s ⟨t, s.ingested⟩ :=
  .removes (rolled.1 ▸ List.Sublist.refl _) rolled.2.1 rolled.2.2.1 rolled.2.2.2

theorem apply_effect (s : LogRun) (op : LogOp) : LogEffect s (s.apply op) := by
  cases op with
  | ingestLog now fault commitError payload =>
    obtain ⟨log, t, ran, persists⟩ | ⟨e, t, ran, rolled⟩ :=
      ingestLog_cases now fault commitError payload s.tables
    · rw [LogRun.apply, ran]
      exact .inserts persists
    · rw [LogRun.apply, ran]
      exact rolled.effect
  | persistItem now fault commitError payload =>
    obtain ⟨log, t, ran, persists⟩ | ⟨e, t, ran, rolled⟩ :=
      persistItem_cases now fault commitError payload s.tables
    · rw [LogRun.apply, ran]
      exact .inserts persists
    · rw [LogRun.apply, ran]
      exact rolled.effect
  | deleteLog logId commitError =>
    have rows := deleteLog_rows logId commitError s.tables
    exact .removes rows.1 rows.2.1 rows.2.2.1.ge rows.2.2.2.ge
  | cleanupBatch threshold batchSize commitError =>
    have rows := cleanupBatch_rows threshold batchSize commitError s.tables
    exact .removes rows.1 rows.2.1 rows.2.2.1.ge rows.2.2.2.ge
  | updateStatus groupId status commitError =>
    exact .edits (updateStatus_triage groupId status commitError s.tables)
  | updateAssignment users currentUser groupId assignedTo commitError =>
    exact .edits (updateAssignment_triage users currentUser groupId assignedTo commitError s.tables)

/-- The log that an operation is to insert. -/
def LogOp.payload : LogOp → Option LogIngestRequest
  | .ingestLog _ _ _ payload | .persistItem _ _ _ payload => some payload
  | .deleteLog .. | .cleanupBatch .. | .updateStatus .. | .updateAssignment .. => none

/-- The operation deletes the log from the tables. -/
def LogOp.Deletes (t : LogTables) (log : Log) : LogOp → Prop
  | .deleteLog logId commitError => log.id = logId ∧ commitError = none
  | .cleanupBatch threshold batchSize commitError =>
    log.id ∈ cleanupIds threshold batchSize t ∧ commitError = none
  | .ingestLog .. | .persistItem .. | .updateStatus .. | .updateAssignment .. => False

/-- What an operation does to the logs: an insert adds its row and its entry together, and
a row leaves in a delete. -/
inductive WriteRows (op : LogOp) (s : LogRun) : LogRun → Prop
  | adds {payload : LogIngestRequest} {log : Log} {t : LogTables} : op.payload = some payload →
    t.logs = s.tables.logs ++ [log] → log.id = s.tables.nextLogId →
    s.tables.nextLogId < t.nextLogId → WriteRows op s ⟨t, (payload, log) :: s.ingested⟩
  | keeps {t : LogTables} : t.logs.Sublist s.tables.logs → s.tables.nextLogId ≤ t.nextLogId →
    (∀ l ∈ s.tables.logs, l ∈ t.logs ∨ op.Deletes s.tables l) → WriteRows op s ⟨t, s.ingested⟩

theorem Persists.writeRows {now : Timestamp} {payload : LogIngestRequest} {s : LogRun} {log : Log}
    {t : LogTables} (persists : Persists now payload s.tables log t) {op : LogOp}
    (inserts : op.payload = some payload) : WriteRows op s ⟨t, (payload, log) :: s.ingested⟩ := by
  refine .adds inserts persists.logs ?_ ?_
  · cases persists <;> subst log <;> rfl
  · cases persists <;> exact Nat.lt_succ_self _

omit [Platform] in
theorem WriteRows.same {s : LogRun} {t : LogTables} (op : LogOp) (logs : t.logs = s.tables.logs)
    (next : s.tables.nextLogId ≤ t.nextLogId) : WriteRows op s ⟨t, s.ingested⟩ :=
  .keeps (logs ▸ List.Sublist.refl _) next fun _ here => .inl (logs ▸ here)

omit [Platform] in
theorem deleteLog_removes (logId : Nat) (commitError : Option Str) {t : LogTables} {l : Log}
    (here : l ∈ t.logs) : l ∈ (deleteLog logId commitError t).2.logs ∨
      (LogOp.deleteLog logId commitError).Deletes t l := by
  unfold deleteLog
  split
  · exact .inl here
  · cases commitError with
    | some _ => exact .inl here
    | none =>
      by_cases own : l.id = logId
      · exact .inr ⟨own, rfl⟩
      · exact .inl (List.mem_filter.mpr ⟨here, decide_eq_true own⟩)

omit [Platform] in
theorem cleanupBatch_removes (threshold : Timestamp) (batchSize : Nat) (commitError : Option Str)
    {t : LogTables} {l : Log} (here : l ∈ t.logs) :
    l ∈ (cleanupBatch threshold batchSize commitError t).2.logs ∨
      (LogOp.cleanupBatch threshold batchSize commitError).Deletes t l := by
  unfold cleanupBatch
  dsimp only
  split
  · split
    · exact .inl here
    · split
      · exact .inl here
      · cases commitError with
        | some _ => exact .inl here
        | none =>
          by_cases selected : l.id ∈ cleanupIds threshold batchSize t
          · exact .inr ⟨selected, rfl⟩
          · exact .inl (List.mem_filter.mpr ⟨here, decide_eq_true selected⟩)
  · exact .inl here

theorem apply_writeRows (s : LogRun) (op : LogOp) : WriteRows op s (s.apply op) := by
  cases op with
  | ingestLog now fault commitError payload =>
    obtain ⟨log, t, ran, persists⟩ | ⟨e, t, ran, rolled⟩ :=
      ingestLog_cases now fault commitError payload s.tables
    · rw [LogRun.apply, ran]
      exact persists.writeRows rfl
    · rw [LogRun.apply, ran]
      exact .same _ rolled.1 rolled.2.2.1
  | persistItem now fault commitError payload =>
    obtain ⟨log, t, ran, persists⟩ | ⟨e, t, ran, rolled⟩ :=
      persistItem_cases now fault commitError payload s.tables
    · rw [LogRun.apply, ran]
      exact persists.writeRows rfl
    · rw [LogRun.apply, ran]
      exact .same _ rolled.1 rolled.2.2.1
  | deleteLog logId commitError =>
    have rows := deleteLog_rows logId commitError s.tables
    exact .keeps rows.1 rows.2.2.1.ge fun _ here => deleteLog_removes logId commitError here
  | cleanupBatch threshold batchSize commitError =>
    have rows := cleanupBatch_rows threshold batchSize commitError s.tables
    exact .keeps rows.1 rows.2.2.1.ge fun _ here =>
      cleanupBatch_removes threshold batchSize commitError here
  | updateStatus groupId status commitError =>
    obtain ⟨f, same, -⟩ := updateStatus_triage groupId status commitError s.tables
    exact .same _ (by rw [same]) (by rw [same])
  | updateAssignment users currentUser groupId assignedTo commitError =>
    obtain ⟨f, same, -⟩ :=
      updateAssignment_triage users currentUser groupId assignedTo commitError s.tables
    exact .same _ (by rw [same]) (by rw [same])

end Effects

theorem kept_map {groups : List ErrorGroup} {f : ErrorGroup → ErrorGroup}
    (sameId : ∀ g, (f g).id = g.id) (sameKey : ∀ g, (f g).key = g.key) :
    ∀ g ∈ groups, ∃ g' ∈ groups.map f, g'.id = g.id ∧ g'.key = g.key :=
  fun g hg => ⟨f g, List.mem_map_of_mem hg, sameId g, sameKey g⟩

section Invariant
variable [Platform]

def payloadKey (payload : LogIngestRequest) : GroupKey :=
  (payload.serviceName, payload.environment, payloadFingerprint payload)

/-- A log is the payload's, and it is bound to the group of the payload's key
exactly when its level is grouped. -/
structure Origin (groups : List ErrorGroup) (payload : LogIngestRequest) (log : Log) : Prop where
  serviceName : log.serviceName = payload.serviceName
  environment : log.environment = payload.environment
  logLevel : log.logLevel = payload.logLevel
  timestamp : asUtcAware payload.timestamp = some log.timestamp
  ungrouped : shouldGroup payload.logLevel = false →
    log.fingerprint = none ∧ log.errorGroupId = none
  grouped : shouldGroup payload.logLevel = true →
    log.fingerprint = some (payloadFingerprint payload) ∧
      ∃ g ∈ groups, log.errorGroupId = some g.id ∧ g.key = payloadKey payload

structure Bookkeeping (s : LogRun) : Prop where
  keys : (s.tables.errorGroups.map ErrorGroup.key).Nodup
  ids : (s.tables.errorGroups.map ErrorGroup.id).Nodup
  groupFresh : ∀ g ∈ s.tables.errorGroups, g.id < s.tables.nextGroupId
  logFresh : ∀ p ∈ s.ingested, p.2.id < s.tables.nextLogId
  origin : ∀ p ∈ s.ingested, Origin s.tables.errorGroups p.1 p.2
  kept : ∀ log ∈ s.tables.logs, ∃ p ∈ s.ingested, p.2 = log
  counted : ∀ g ∈ s.tables.errorGroups, g.occurrenceCount = (s.boundTo g.id).length

theorem bookkeeping_initial : Bookkeeping {} where
  keys := List.nodup_nil
  ids := List.nodup_nil
  groupFresh := by simp
  logFresh := by simp
  origin := by simp
  kept := by simp
  counted := by simp

namespace Bookkeeping
variable {s : LogRun}

theorem eq_of_key (holds : Bookkeeping s) {g h : ErrorGroup} (hg : g ∈ s.tables.errorGroups)
    (hh : h ∈ s.tables.errorGroups) (same : g.key = h.key) : g = h :=
  List.inj_on_of_nodup_map holds.keys hg hh same

theorem eq_of_id (holds : Bookkeeping s) {g h : ErrorGroup} (hg : g ∈ s.tables.errorGroups)
    (hh : h ∈ s.tables.errorGroups) (same : g.id = h.id) : g = h :=
  List.inj_on_of_nodup_map holds.ids hg hh same

/-- Only logs leave, and only ids are used up. -/
theorem shrink (holds : Bookkeeping s) {t : LogTables}
    (logs : ∀ log ∈ t.logs, log ∈ s.tables.logs) (groups : t.errorGroups = s.tables.errorGroups)
    (logIds : s.tables.nextLogId ≤ t.nextLogId) (groupIds : s.tables.nextGroupId ≤ t.nextGroupId) :
    Bookkeeping { s with tables := t } where
  keys := groups ▸ holds.keys
  ids := groups ▸ holds.ids
  groupFresh g hg := (holds.groupFresh g (groups ▸ hg)).trans_le groupIds
  logFresh p hp := (holds.logFresh p hp).trans_le logIds
  origin p hp := groups ▸ holds.origin p hp
  kept log hl := holds.kept log (logs log hl)
  counted g hg := holds.counted g (groups ▸ hg)

end Bookkeeping

theorem Origin.mono {groups groups' : List ErrorGroup} {payload : LogIngestRequest} {log : Log}
    (origin : Origin groups payload log)
    (kept : ∀ g ∈ groups, ∃ g' ∈ groups', g'.id = g.id ∧ g'.key = g.key) :
    Origin groups' payload log where
  serviceName := origin.serviceName
  environment := origin.environment
  logLevel := origin.logLevel
  timestamp := origin.timestamp
  ungrouped := origin.ungrouped
  grouped level := by
    obtain ⟨fingerprint, g, hg, bound, key⟩ := origin.grouped level
    obtain ⟨g', hg', sameId, sameKey⟩ := kept g hg
    exact ⟨fingerprint, g', hg', by rw [bound, sameId], sameKey.trans key⟩

/-- A triage edit keeps every column the invariant speaks of. -/
theorem Bookkeeping.edit {s : LogRun} (holds : Bookkeeping s) {f : ErrorGroup → ErrorGroup}
    (sameId : ∀ g, (f g).id = g.id) (sameKey : ∀ g, (f g).key = g.key)
    (sameCount : ∀ g, (f g).occurrenceCount = g.occurrenceCount) :
    Bookkeeping
      { s with tables := { s.tables with errorGroups := s.tables.errorGroups.map f } } where
  keys := by
    rw [column_map sameKey]
    exact holds.keys
  ids := by
    rw [column_map sameId]
    exact holds.ids
  groupFresh := by
    intro h hh
    obtain ⟨g, hg, rfl⟩ := List.mem_map.mp hh
    exact sameId g ▸ holds.groupFresh g hg
  logFresh := holds.logFresh
  origin p hp := (holds.origin p hp).mono (kept_map sameId sameKey)
  kept := holds.kept
  counted := by
    intro h hh
    obtain ⟨g, hg, rfl⟩ := List.mem_map.mp hh
    rw [sameCount, sameId]
    exact holds.counted g hg

/-- The conflict update changes no id. -/
theorem Bookkeeping.merge {s : LogRun} (holds : Bookkeeping s) (v : GroupValues) :
    ((s.tables.errorGroups.map v.mergeInto).map ErrorGroup.id).Nodup ∧
    ∀ g ∈ s.tables.errorGroups.map v.mergeInto, g.id < s.tables.nextGroupId + 1 := by
  refine ⟨?_, ?_⟩
  · rw [column_map (mergeInto_id v)]
    exact holds.ids
  · intro h hh
    obtain ⟨g, hg, rfl⟩ := List.mem_map.mp hh
    have old := holds.groupFresh g hg
    rw [mergeInto_id]
    omega

/-- The invariant after an ingestion, from what it did to the groups. -/
theorem Bookkeeping.insert {s : LogRun} (holds : Bookkeeping s) {payload : LogIngestRequest}
    {log : Log} {t : LogTables}
    (keys : (t.errorGroups.map ErrorGroup.key).Nodup)
    (ids : (t.errorGroups.map ErrorGroup.id).Nodup)
    (groupFresh : ∀ g ∈ t.errorGroups, g.id < t.nextGroupId)
    (logId : log.id = s.tables.nextLogId) (nextLogId : t.nextLogId = s.tables.nextLogId + 1)
    (logs : t.logs = s.tables.logs ++ [log])
    (keptGroups : ∀ g ∈ s.tables.errorGroups, ∃ g' ∈ t.errorGroups, g'.id = g.id ∧ g'.key = g.key)
    (origin : Origin t.errorGroups payload log)
    (counted : ∀ g ∈ t.errorGroups, g.occurrenceCount =
      (s.boundTo g.id).length + if log.errorGroupId = some g.id then 1 else 0) :
    Bookkeeping ⟨t, (payload, log) :: s.ingested⟩ where
  keys := keys
  ids := ids
  groupFresh := groupFresh
  logFresh := by
    rw [List.forall_mem_cons]
    refine ⟨by rw [logId, nextLogId]; omega, fun p hp => ?_⟩
    have old := holds.logFresh p hp
    rw [nextLogId]
    omega
  origin := by
    rw [List.forall_mem_cons]
    exact ⟨origin, fun p hp => (holds.origin p hp).mono keptGroups⟩
  kept := by
    intro l hl
    rw [logs, List.mem_append, List.mem_singleton] at hl
    cases hl with
    | inl old =>
      obtain ⟨p, hp, rfl⟩ := holds.kept l old
      exact ⟨p, List.mem_cons_of_mem _ hp, rfl⟩
    | inr new => exact ⟨(payload, log), List.mem_cons_self, new.symm⟩
  counted := by
    intro g hg
    rw [counted g hg, LogRun.boundTo, LogRun.boundTo, List.filter_cons]
    by_cases bound : log.errorGroupId = some g.id <;> simp [bound]

/-- No log is bound to an id the sequence has not given out. -/
theorem Bookkeeping.boundTo_fresh {s : LogRun} (holds : Bookkeeping s) {groupId : Nat}
    (fresh : s.tables.nextGroupId ≤ groupId) : s.boundTo groupId = [] := by
  rw [LogRun.boundTo, List.filter_eq_nil_iff]
  intro p hp bound
  rw [decide_eq_true_eq] at bound
  have origin := holds.origin p hp
  cases level : shouldGroup p.1.logLevel with
  | false =>
    rw [(origin.ungrouped level).2] at bound
    cases bound
  | true =>
    obtain ⟨-, h, hh, own, -⟩ := origin.grouped level
    rw [own, Option.some.injEq] at bound
    have old := holds.groupFresh h hh
    omega

/-- A log carries a group exactly at the grouped levels, and the group's key is its own. -/
theorem Origin.binding {groups : List ErrorGroup} {payload : LogIngestRequest} {log : Log}
    (origin : Origin groups payload log) :
    (log.fingerprint ≠ none ↔ log.errorGroupId ≠ none) ∧
    (log.errorGroupId ≠ none ↔
      log.logLevel = .warning ∨ log.logLevel = .error ∨ log.logLevel = .critical) ∧
    ∀ id, log.errorGroupId = some id → ∃ g ∈ groups, g.id = id ∧
      g.serviceName = log.serviceName ∧ g.environment = log.environment ∧
      some g.fingerprint = log.fingerprint := by
  have levels : (log.logLevel = .warning ∨ log.logLevel = .error ∨ log.logLevel = .critical) ↔
      shouldGroup payload.logLevel = true := by
    rw [origin.logLevel]
    cases payload.logLevel <;> simp [shouldGroup]
  rw [levels]
  cases level : shouldGroup payload.logLevel with
  | false =>
    have none := origin.ungrouped level
    simp [none.1, none.2]
  | true =>
    obtain ⟨fingerprint, g, hg, bound, key⟩ := origin.grouped level
    simp only [ErrorGroup.key, payloadKey, Prod.mk.injEq] at key
    refine ⟨by simp [fingerprint, bound], by simp [bound], fun id own => ⟨g, hg, ?_, ?_, ?_, ?_⟩⟩
    · rwa [bound, Option.some.injEq] at own
    · rw [origin.serviceName, key.1]
    · rw [origin.environment, key.2.1]
    · rw [fingerprint, key.2.2]

theorem Origin.ofGroup {groups : List ErrorGroup} {payload : LogIngestRequest}
    {timestamp : Timestamp} {g : ErrorGroup} (now : Timestamp) (id : Nat)
    (aware : asUtcAware payload.timestamp = some timestamp)
    (level : shouldGroup payload.logLevel = true) (hg : g ∈ groups)
    (key : g.key = payloadKey payload) :
    Origin groups payload
      (logRow now payload timestamp (some (payloadFingerprint payload)) (some g.id) id) where
  serviceName := rfl
  environment := rfl
  logLevel := rfl
  timestamp := aware
  ungrouped ungrouped := by
    rw [level] at ungrouped
    cases ungrouped
  grouped _ := ⟨rfl, g, hg, rfl, key⟩

theorem Bookkeeping.persists {s : LogRun} (holds : Bookkeeping s) {now : Timestamp}
    {payload : LogIngestRequest} {log : Log} {t : LogTables}
    (persists : Persists now payload s.tables log t) :
    Bookkeeping ⟨t, (payload, log) :: s.ingested⟩ := by
  have keys := persists.keys holds.keys
  cases persists with
  | @ungrouped timestamp _ aware level row =>
    subst row
    have origin : Origin s.tables.errorGroups payload
        (logRow now payload timestamp none none s.tables.nextLogId) := by
      refine ⟨rfl, rfl, rfl, aware, fun _ => ⟨rfl, rfl⟩, fun grouped => ?_⟩
      rw [level] at grouped
      cases grouped
    refine holds.insert keys holds.ids holds.groupFresh rfl rfl rfl
      (fun g hg => ⟨g, hg, rfl, rfl⟩) origin fun g hg => ?_
    rw [holds.counted g hg]
    simp [logRow]
  | @conflict timestamp _ g aware level hg key row =>
    subst row
    have merged := holds.merge (groupValues payload timestamp)
    have own := Origin.ofGroup now s.tables.nextLogId aware level
      (List.mem_map_of_mem hg) ((mergeInto_key (groupValues payload timestamp) g).trans key)
    rw [mergeInto_id] at own
    refine holds.insert keys merged.1 merged.2 rfl rfl rfl
      (kept_map (mergeInto_id _) (mergeInto_key _)) own fun h' hh' => ?_
    obtain ⟨h, hh, rfl⟩ := List.mem_map.mp hh'
    have before := holds.counted h hh
    rw [mergeInto_id]
    by_cases same : h = g
    · subst same
      simp [GroupValues.mergeInto, key, GroupValues.onConflict, before, logRow]
    · have otherKey : h.key ≠ (groupValues payload timestamp).key :=
        fun sameKey => same (holds.eq_of_key hh hg (sameKey.trans key.symm))
      have otherId : g.id ≠ h.id := fun sameId => same (holds.eq_of_id hh hg sameId.symm)
      simp only [GroupValues.mergeInto, if_neg otherKey, logRow, Option.some.injEq, otherId,
        if_false, before, Nat.add_zero]
  | @inserted timestamp _ aware level other row =>
    subst row
    have own := Origin.ofGroup now s.tables.nextLogId aware level
      (List.mem_append_right s.tables.errorGroups (List.mem_singleton_self _))
      (inserted_key (groupValues payload timestamp) s.tables.nextGroupId now)
    refine holds.insert keys ?_ ?_ rfl rfl rfl
      (fun g hg => ⟨g, List.mem_append_left _ hg, rfl, rfl⟩) own ?_
    · rw [List.map_append, List.nodup_append]
      refine ⟨holds.ids, List.nodup_singleton _, ?_⟩
      intro id hid new hnew
      obtain ⟨g, hg, rfl⟩ := List.mem_map.mp hid
      have old := holds.groupFresh g hg
      rw [List.map_singleton, List.mem_singleton] at hnew
      rw [hnew]
      exact old.ne
    · intro g hg
      rw [List.mem_append, List.mem_singleton] at hg
      cases hg with
      | inl old => exact (holds.groupFresh g old).trans (Nat.lt_succ_self _)
      | inr new =>
        subst new
        exact Nat.lt_succ_self _
    · intro g hg
      rw [List.mem_append, List.mem_singleton] at hg
      cases hg with
      | inl old =>
        have before := holds.counted g old
        have fresh := holds.groupFresh g old
        have otherId : s.tables.nextGroupId ≠ g.id := fresh.ne'
        simp [before, logRow, otherId]
      | inr new =>
        subst new
        have none := holds.boundTo_fresh (le_refl s.tables.nextGroupId)
        simp [GroupValues.inserted, none, logRow]

theorem Bookkeeping.effect {s s' : LogRun} (holds : Bookkeeping s) (effect : LogEffect s s') :
    Bookkeeping s' := by
  cases effect with
  | inserts persists => exact holds.persists persists
  | removes logs groups logIds groupIds =>
    exact holds.shrink (fun _ hl => logs.subset hl) groups logIds groupIds
  | edits triage =>
    obtain ⟨f, rfl, edited⟩ := triage
    exact holds.edit (fun g => (Triage.columns edited g).1) (fun g => (Triage.columns edited g).2.1)
      fun g => (Triage.columns edited g).2.2.1

/-- The rows of `logs` are inserts of the run in their order, and every insert had its own id. -/
structure RowsInserted (s : LogRun) : Prop where
  rows : s.tables.logs.Sublist (s.ingested.reverse.map Prod.snd)
  ids : (s.ingested.map fun p => p.2.id).Nodup

omit [Platform] in
theorem RowsInserted.keys {s : LogRun} (holds : RowsInserted s) :
    (s.tables.logs.map Log.id).Nodup := by
  refine (holds.rows.map Log.id).nodup ?_
  rw [List.map_map, List.map_reverse, List.nodup_reverse]
  exact holds.ids

theorem RowsInserted.write {s s' : LogRun} {op : LogOp} (holds : RowsInserted s)
    (book : Bookkeeping s) (writes : WriteRows op s s') : RowsInserted s' := by
  cases writes with
  | @adds payload log t _ logs logId next =>
    have fresh : log.id ∉ s.ingested.map fun p => p.2.id := by
      intro used
      obtain ⟨p, hp, same⟩ := List.mem_map.mp used
      have old := book.logFresh p hp
      omega
    refine ⟨?_, List.nodup_cons.mpr ⟨fresh, holds.ids⟩⟩
    rw [logs, List.reverse_cons, List.map_append]
    exact holds.rows.append (List.Sublist.refl _)
  | keeps fewer => exact ⟨fewer.trans holds.rows, holds.ids⟩

theorem run_foldl (s : LogRun) (ops : List LogOp) :
    logMachine.run s ops = some (ops.foldl LogRun.apply s) := by
  induction ops generalizing s with
  | nil => rfl
  | cons op rest ih => exact ih (s.apply op)

theorem reach_foldl (ops : List LogOp) {s : LogRun}
    (reached : Reach logMachine Always LogRun.Initial s) :
    Reach logMachine Always LogRun.Initial (ops.foldl LogRun.apply s) := by
  induction ops generalizing s with
  | nil => exact reached
  | cons op rest ih => exact ih (.next reached trivial rfl)

theorem reach_bookkeeping {G : LogRun → LogOp → Prop} {s : LogRun}
    (reached : Reach logMachine G LogRun.Initial s) : Bookkeeping s := by
  refine reached.invariant ?_ ?_
  · rintro _ rfl
    exact bookkeeping_initial
  · intro s t op holds _ moved
    cases moved
    exact holds.effect (apply_effect s op)

theorem reach_rowsInserted {s : LogRun} (reached : Reach logMachine Always LogRun.Initial s) :
    RowsInserted s := by
  refine (reached.invariant (I := fun s => Bookkeeping s ∧ RowsInserted s) ?_ ?_).2
  · rintro _ rfl
    exact ⟨bookkeeping_initial, List.Sublist.refl _, List.nodup_nil⟩
  · rintro s t op ⟨book, rows⟩ _ moved
    cases moved
    exact ⟨book.effect (apply_effect s op), rows.write book (apply_writeRows s op)⟩

/-- An operation of the run took the row of the log. -/
def DeletedIn (ops : List LogOp) (log : Log) : Prop :=
  ∃ before op, before ++ [op] <+: ops ∧
    log ∈ (before.foldl LogRun.apply {}).tables.logs ∧
    op.Deletes (before.foldl LogRun.apply {}).tables log ∧
    log ∉ ((before.foldl LogRun.apply {}).apply op).tables.logs

theorem DeletedIn.snoc {ops : List LogOp} {log : Log} (deleted : DeletedIn ops log) (op : LogOp) :
    DeletedIn (ops ++ [op]) log := by
  obtain ⟨before, last, inside, rest⟩ := deleted
  exact ⟨before, last, inside.trans (List.prefix_append _ _), rest⟩

/-- What a run inserted is there, or one of its operations deleted it. -/
theorem inserted_or_deleted (ops : List LogOp) :
    ∀ p ∈ (ops.foldl LogRun.apply {}).ingested,
      p.2 ∈ (ops.foldl LogRun.apply {}).tables.logs ∨ DeletedIn ops p.2 := by
  induction ops using List.reverseRecOn with
  | nil => rintro p ⟨⟩
  | append_singleton ops op ih =>
    rw [List.foldl_append, List.foldl_cons, List.foldl_nil]
    generalize run : ops.foldl LogRun.apply {} = s at ih ⊢
    have writes := apply_writeRows s op
    generalize next : s.apply op = s' at writes ⊢
    intro p hp
    cases writes with
    | adds _ logs =>
      rw [logs, List.mem_append, List.mem_singleton]
      obtain rfl | old := List.mem_cons.mp hp
      · exact .inl (.inr rfl)
      · exact (ih p old).imp .inl fun deleted => deleted.snoc op
    | @keeps t _ _ kept =>
      obtain here | deleted := ih p hp
      · by_cases stays : p.2 ∈ t.logs
        · exact .inl stays
        · refine .inr ⟨ops, op, List.prefix_refl _, ?_⟩
          rw [run, next]
          exact ⟨here, (kept p.2 here).resolve_left stays, stays⟩
      · exact .inr (deleted.snoc op)

/-- In every committed state: one group for a key, every log bound as its level and its key
say, and every counter equal to the inserts ever committed. An insert is a row of its own,
written by the step that counts it, and gone only if a delete of the run took it. -/
theorem group_bookkeeping (s : LogRun) (reached : Reach logMachine Always LogRun.Initial s) :
    (∀ g ∈ s.tables.errorGroups, ∀ h ∈ s.tables.errorGroups,
      g.serviceName = h.serviceName → g.environment = h.environment →
      g.fingerprint = h.fingerprint → g = h) ∧
    (s.tables.errorGroups.map ErrorGroup.key).Nodup ∧
    (∀ log ∈ s.tables.logs,
      (log.fingerprint ≠ none ↔ log.errorGroupId ≠ none) ∧
      (log.errorGroupId ≠ none ↔
        log.logLevel = .warning ∨ log.logLevel = .error ∨ log.logLevel = .critical) ∧
      ∀ id, log.errorGroupId = some id → ∃ g ∈ s.tables.errorGroups, g.id = id ∧
        g.serviceName = log.serviceName ∧ g.environment = log.environment ∧
        some g.fingerprint = log.fingerprint) ∧
    (∀ g ∈ s.tables.errorGroups, g.occurrenceCount = (s.boundTo g.id).length) ∧
    (s.tables.logs.Sublist (s.ingested.reverse.map Prod.snd) ∧
      (s.ingested.map fun p => p.2.id).Nodup) ∧
    (∀ op, WriteRows op s (s.apply op)) ∧
    ∀ ops, logMachine.run {} ops = some s → ∀ p ∈ s.ingested,
      p.2 ∈ s.tables.logs ∨ DeletedIn ops p.2 := by
  have holds := reach_bookkeeping reached
  have inserted := reach_rowsInserted reached
  refine ⟨?_, holds.keys, ?_, holds.counted, ⟨inserted.rows, inserted.ids⟩, apply_writeRows s, ?_⟩
  · intro g hg h hh service environment fingerprint
    refine holds.eq_of_key hg hh ?_
    rw [ErrorGroup.key, ErrorGroup.key, service, environment, fingerprint]
  · intro log hl
    obtain ⟨p, hp, rfl⟩ := holds.kept log hl
    exact (holds.origin p hp).binding
  · intro ops ran
    rw [run_foldl, Option.some.injEq] at ran
    exact ran ▸ inserted_or_deleted ops

end Invariant

/-- The same error ingested alone, in a bulk job, and in a call whose commit fails. -/
def repeatedErrorOps : List LogOp :=
  let request := minimalRequest .error { clock := 0, utcoffset := none }
  [.ingestLog 0 none none request, .persistItem 0 none none request,
    .ingestLog 0 none (some []) request]

def repeatedError : LogRun :=
  letI := asciiPlatform
  repeatedErrorOps.foldl LogRun.apply {}

theorem group_bookkeeping_repeatedError :
    repeatedError.tables.errorGroups.map (·.occurrenceCount) = [2] ∧
    repeatedError.tables.logs.length = 2 ∧
    (∀ g ∈ repeatedError.tables.errorGroups,
      g.occurrenceCount = (repeatedError.boundTo g.id).length) ∧
    repeatedError.tables.logs.Sublist (repeatedError.ingested.reverse.map Prod.snd) :=
  letI := asciiPlatform
  have holds := group_bookkeeping repeatedError (reach_foldl _ (.start rfl))
  ⟨by decide, by decide, holds.2.2.2.1, holds.2.2.2.2.1.1⟩

end LogLens
