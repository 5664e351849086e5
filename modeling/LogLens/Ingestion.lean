import LogLens.Fingerprint
import LogLens.Parameters
import Mathlib.Data.List.Nodup

/-! `LogService`, `LogRepository` and the writes of `ErrorGroupRepository` on the
tables `logs` and `error_groups`. A statement of an ingestion may raise; which
one does, and with what text, is an argument. Ids come from sequences, and a
rollback does not give them back. -/

namespace LogLens

structure LogTables where
  logs : List Log := []
  errorGroups : List ErrorGroup := []
  nextLogId : Nat := 1
  nextGroupId : Nat := 1
  deriving DecidableEq

/-- ROLLBACK, to a savepoint or of the whole transaction. -/
def LogTables.rollbackTo (before after : LogTables) : LogTables :=
  { after with logs := before.logs, errorGroups := before.errorGroups }

/-- The columns of `ix_error_groups_service_environment_fingerprint`. -/
abbrev GroupKey := Str × LogEnvironment × Str

def ErrorGroup.key (g : ErrorGroup) : GroupKey := (g.serviceName, g.environment, g.fingerprint)

structure GroupValues where
  fingerprint : Str
  title : Str
  serviceName : Str
  environment : LogEnvironment
  exceptionType : Option Str
  firstSeen : Timestamp
  lastSeen : Timestamp
  severity : ErrorGroupSeverity

namespace GroupValues

def key (v : GroupValues) : GroupKey := (v.serviceName, v.environment, v.fingerprint)

def inserted (v : GroupValues) (id : Nat) (now : Timestamp) : ErrorGroup where
  id := id
  fingerprint := v.fingerprint
  title := v.title
  serviceName := v.serviceName
  environment := v.environment
  exceptionType := v.exceptionType
  firstSeen := v.firstSeen
  lastSeen := v.lastSeen
  occurrenceCount := 1
  status := .unresolved
  severity := v.severity
  assignedTo := none
  createdAt := now

/-- The `set_` of ON CONFLICT DO UPDATE. -/
def onConflict (v : GroupValues) (g : ErrorGroup) : ErrorGroup :=
  { g with
    title := v.title
    exceptionType := v.exceptionType
    lastSeen := v.lastSeen
    severity := v.severity
    occurrenceCount := g.occurrenceCount + 1 }

def mergeInto (v : GroupValues) (g : ErrorGroup) : ErrorGroup :=
  if g.key = v.key then v.onConflict g else g

end GroupValues

/-- The statement takes an id from the sequence before it looks for a conflict. -/
def upsertGroup (now : Timestamp) (v : GroupValues) (t : LogTables) : Nat × LogTables :=
  match t.errorGroups.find? fun g => g.key = v.key with
  | some g =>
    (g.id, { t with
      errorGroups := t.errorGroups.map v.mergeInto
      nextGroupId := t.nextGroupId + 1 })
  | none =>
    (t.nextGroupId, { t with
      errorGroups := t.errorGroups ++ [v.inserted t.nextGroupId now]
      nextGroupId := t.nextGroupId + 1 })

def createLog (row : Nat → Log) (t : LogTables) : Log × LogTables :=
  (row t.nextLogId,
    { t with logs := t.logs ++ [row t.nextLogId], nextLogId := t.nextLogId + 1 })

def asUtcAware (value : Datetime) : Option Timestamp :=
  match value.utcoffset with
  | none => some value.clock
  | some offset =>
    if datetimeMin ≤ value.clock - offset ∧ value.clock - offset ≤ datetimeMax then
      some (value.clock - offset)
    else none

/-- `OverflowError` of `astimezone` -/
def dateOutOfRange : Raised := .other "date value out of range".toList

def severityForLevel : LogLevel → ErrorGroupSeverity
  | .warning => .medium
  | .error => .high
  | _ => .critical

def shouldGroup : LogLevel → Bool
  | .warning | .error | .critical => true
  | .debug | .info => false

def groupTitle (payload : LogIngestRequest) (normalizedMessage : Str) : Str :=
  match payload.exceptionType with
  | some (c :: rest) => (c :: rest).take 512
  | _ => normalizedMessage.take 512

/-- The statements of `_persist_log` and of its savepoint. -/
inductive PersistStep
  | upsertGroup | getGroup | flushLog | refreshLog | releaseSavepoint
  deriving DecidableEq

/-- The statement that raises, and the text of the exception. -/
abbrev PersistFault := Option (PersistStep × Str)

def raisedAt (fault : PersistFault) (step : PersistStep) : Option Raised :=
  match fault with
  | some (at', text) => if at' = step then some (.other text) else none
  | none => none

/-- None of the statements raises. -/
def passes (fault : PersistFault) (steps : List PersistStep) : Bool :=
  steps.all fun step => (raisedAt fault step).isNone

def persistSteps : List PersistStep := [.upsertGroup, .getGroup, .flushLog, .refreshLog]

/-- The statements of `_persist_log` for a log of a level. -/
def stepsFor (level : LogLevel) : List PersistStep :=
  if shouldGroup level then persistSteps else [.flushLog, .refreshLog]

section Persist
variable [Platform]

def payloadFingerprint (payload : LogIngestRequest) : Str :=
  generateFingerprint
    { serviceName := payload.serviceName
      normalizedMessage := normalizeMessage payload.message
      exceptionType := payload.exceptionType
      stackTrace := payload.stackTrace }

def groupValues (payload : LogIngestRequest) (timestamp : Timestamp) : GroupValues where
  fingerprint := payloadFingerprint payload
  title := groupTitle payload (normalizeMessage payload.message)
  serviceName := payload.serviceName
  environment := payload.environment
  exceptionType := payload.exceptionType
  firstSeen := timestamp
  lastSeen := timestamp
  severity := severityForLevel payload.logLevel

/-- The block under `_should_group`: the fingerprint and the id of the group. -/
def bindGroup (now : Timestamp) (fault : PersistFault) (payload : LogIngestRequest)
    (timestamp : Timestamp) (t : LogTables) :
    Except Raised (Option Str × Option Nat) × LogTables :=
  if shouldGroup payload.logLevel then
    match raisedAt fault .upsertGroup with
    | some e => (.error e, t)
    | none =>
      let v := groupValues payload timestamp
      let r := upsertGroup now v t
      match raisedAt fault .getGroup with
      | some e => (.error e, r.2)
      | none => (.ok (some v.fingerprint, some r.1), r.2)
  else (.ok (none, none), t)

def logRow (now : Timestamp) (payload : LogIngestRequest) (timestamp : Timestamp)
    (fingerprint : Option Str) (errorGroupId : Option Nat) (id : Nat) : Log where
  id := id
  serviceName := payload.serviceName
  environment := payload.environment
  logLevel := payload.logLevel
  message := payload.message
  normalizedMessage := normalizeMessage payload.message
  exceptionType := payload.exceptionType
  stackTrace := payload.stackTrace
  metadata := payload.metadata
  fingerprint := fingerprint
  errorGroupId := errorGroupId
  timestamp := timestamp
  createdAt := now

def persistLog (now : Timestamp) (fault : PersistFault) (payload : LogIngestRequest)
    (t : LogTables) : Except Raised Log × LogTables :=
  match asUtcAware payload.timestamp with
  | none => (.error dateOutOfRange, t)
  | some timestamp =>
    match bindGroup now fault payload timestamp t with
    | (.error e, t) => (.error e, t)
    | (.ok (fingerprint, errorGroupId), t) =>
      match raisedAt fault .flushLog with
      | some e => (.error e, t)
      | none =>
        let r := createLog (logRow now payload timestamp fingerprint errorGroupId) t
        match raisedAt fault .refreshLog with
        | some e => (.error e, r.2)
        | none => (.ok r.1, r.2)

/-- `async with session.begin_nested(): await service._persist_log(item)` -/
def persistInSavepoint (now : Timestamp) (fault : PersistFault) (payload : LogIngestRequest)
    (t : LogTables) : Except Raised Log × LogTables :=
  match persistLog now fault payload t with
  | (.error e, after) => (.error e, t.rollbackTo after)
  | (.ok log, after) =>
    match raisedAt fault .releaseSavepoint with
    | some e => (.error e, t.rollbackTo after)
    | none => (.ok log, after)

/-- COMMIT of the transaction that began in `before`. A failure at any point
rolls it back. -/
def endTransaction {α : Type} (commitError : Option Str) (before : LogTables) :
    Except Raised α × LogTables → Except Raised α × LogTables
  | (.error e, after) => (.error e, before.rollbackTo after)
  | (.ok value, after) =>
    match commitError with
    | some text => (.error (.other text), before.rollbackTo after)
    | none => (.ok value, after)

def ingestLog (now : Timestamp) (fault : PersistFault) (commitError : Option Str)
    (payload : LogIngestRequest) (t : LogTables) : Except Raised Log × LogTables :=
  endTransaction commitError t (persistLog now fault payload t)

/-- One item of a bulk job: its savepoint and the commit after it. -/
def persistItem (now : Timestamp) (fault : PersistFault) (commitError : Option Str)
    (payload : LogIngestRequest) (t : LogTables) : Except Raised Log × LogTables :=
  endTransaction commitError t (persistInSavepoint now fault payload t)

end Persist

def deleteLog (logId : Nat) (commitError : Option Str) (t : LogTables) :
    Except Raised Unit × LogTables :=
  match t.logs.find? fun l => l.id = logId with
  | none => (.error (.app (notFoundError "Log")), t)
  | some _ =>
    endTransaction commitError t (.ok (), { t with logs := t.logs.filter fun l => l.id ≠ logId })

/-- The ids of one round of `_cleanup_old_logs`. -/
def cleanupIds (threshold : Timestamp) (batchSize : Nat) (t : LogTables) : List Nat :=
  (((t.logs.filter fun l => l.timestamp < threshold).map (·.id)).mergeSort).take batchSize

/-- The SELECT and the DELETE of one round. The LIMIT is a `bigint`, and each id is an
argument of the DELETE. -/
def cleanupBatch (threshold : Timestamp) (batchSize : Nat) (commitError : Option Str)
    (t : LogTables) : Except Raised Nat × LogTables :=
  if Bindable [.bigint batchSize] then
    let ids := cleanupIds threshold batchSize t
    if ids.isEmpty then (.ok 0, t)
    else if maxQueryArguments < ids.length then (.error dbapiError, t)
    else endTransaction commitError t
      (.ok ids.length, { t with logs := t.logs.filter fun l => l.id ∉ ids })
  else (.error dbapiError, t)

/-- An UPDATE of the group's row; an edit keeps the columns of the key and the counter. -/
def LogTables.editGroup (groupId : Nat) (edit : ErrorGroup → ErrorGroup) (t : LogTables) :
    LogTables :=
  { t with errorGroups := t.errorGroups.map fun g => if g.id = groupId then edit g else g }

/-- `ErrorGroupService.update_status` -/
def updateStatus (groupId : Nat) (status : ErrorGroupStatus) (commitError : Option Str)
    (t : LogTables) : Except Raised ErrorGroup × LogTables :=
  match t.errorGroups.find? fun g => g.id = groupId with
  | none => (.error (.app (notFoundError "ErrorGroup")), t)
  | some g =>
    endTransaction commitError t
      (.ok { g with status := status }, t.editGroup groupId fun g => { g with status := status })

/-- `ErrorGroupService.update_assignment` -/
def updateAssignment (users : List User) (currentUser : User) (groupId : Nat)
    (assignedTo : Option Nat) (commitError : Option Str) (t : LogTables) :
    Except Raised ErrorGroup × LogTables :=
  match t.errorGroups.find? fun g => g.id = groupId with
  | none => (.error (.app (notFoundError "ErrorGroup")), t)
  | some g =>
    if currentUser.role = .developer ∧ assignedTo ≠ none ∧ assignedTo ≠ some currentUser.id then
      (.error (.app (authorizationError
        "Developers may only assign error groups to themselves.")), t)
    else if assignedTo.any fun id => !users.any fun u => u.id = id then
      (.error (.app (notFoundError "User")), t)
    else
      endTransaction commitError t (.ok { g with assignedTo := assignedTo },
        t.editGroup groupId fun g => { g with assignedTo := assignedTo })

section Specifications

@[simp] theorem inserted_key (v : GroupValues) (id : Nat) (now : Timestamp) :
    (v.inserted id now).key = v.key := rfl

@[simp] theorem mergeInto_key (v : GroupValues) (g : ErrorGroup) : (v.mergeInto g).key = g.key := by
  unfold GroupValues.mergeInto
  split <;> rfl

@[simp] theorem mergeInto_id (v : GroupValues) (g : ErrorGroup) : (v.mergeInto g).id = g.id := by
  unfold GroupValues.mergeInto
  split <;> rfl

theorem column_map {β : Type} {groups : List ErrorGroup} {f : ErrorGroup → ErrorGroup}
    {column : ErrorGroup → β} (same : ∀ g, column (f g) = column g) :
    (groups.map f).map column = groups.map column := by
  rw [List.map_map]
  exact List.map_congr_left fun g _ => same g

/-- What a transaction left behind: its writes, or nothing but used ids. -/
def RolledBack (before after : LogTables) : Prop :=
  after.logs = before.logs ∧ after.errorGroups = before.errorGroups ∧
    before.nextLogId ≤ after.nextLogId ∧ before.nextGroupId ≤ after.nextGroupId

theorem RolledBack.refl (t : LogTables) : RolledBack t t := ⟨rfl, rfl, le_refl _, le_refl _⟩

theorem endTransaction_ok {α : Type} {commitError : Option Str} {before t : LogTables}
    {r : Except Raised α × LogTables} {value : α}
    (h : endTransaction commitError before r = (.ok value, t)) : r = (.ok value, t) := by
  obtain ⟨e | v, after⟩ := r
  · simp [endTransaction] at h
  · cases commitError with
    | some text => simp [endTransaction] at h
    | none => exact h

theorem endTransaction_ok_iff {α : Type} (commitError : Option Str) (before : LogTables)
    (r : Except Raised α × LogTables) :
    (∃ value t, endTransaction commitError before r = (.ok value, t)) ↔
      (∃ value t, r = (.ok value, t)) ∧ commitError = none := by
  obtain ⟨e | v, after⟩ := r <;> cases commitError <;> simp [endTransaction]

theorem endTransaction_error {α : Type} {commitError : Option Str} {before t : LogTables}
    {r : Except Raised α × LogTables} {e : Raised}
    (h : endTransaction commitError before r = (.error e, t)) : t = before.rollbackTo r.2 := by
  obtain ⟨e' | v, after⟩ := r
  · simp only [endTransaction, Prod.mk.injEq] at h
    exact h.2.symm
  · cases commitError with
    | some text =>
      simp only [endTransaction, Prod.mk.injEq] at h
      exact h.2.symm
    | none => simp [endTransaction] at h

theorem upsertGroup_cases (now : Timestamp) (v : GroupValues) (t : LogTables) :
    (∃ g ∈ t.errorGroups, g.key = v.key ∧ upsertGroup now v t =
      (g.id, { t with
        errorGroups := t.errorGroups.map v.mergeInto, nextGroupId := t.nextGroupId + 1 })) ∨
    ((∀ g ∈ t.errorGroups, g.key ≠ v.key) ∧ upsertGroup now v t =
      (t.nextGroupId, { t with
        errorGroups := t.errorGroups ++ [v.inserted t.nextGroupId now]
        nextGroupId := t.nextGroupId + 1 })) := by
  unfold upsertGroup
  cases found : t.errorGroups.find? fun g => g.key = v.key with
  | some g =>
    have same : g.key = v.key := by simpa using List.find?_some found
    exact .inl ⟨g, List.mem_of_find?_eq_some found, same, rfl⟩
  | none =>
    have other : ∀ g ∈ t.errorGroups, g.key ≠ v.key := by simpa using found
    exact .inr ⟨other, rfl⟩

theorem upsertGroup_logs (now : Timestamp) (v : GroupValues) (t : LogTables) :
    (upsertGroup now v t).2.logs = t.logs ∧ (upsertGroup now v t).2.nextLogId = t.nextLogId ∧
      (upsertGroup now v t).2.nextGroupId = t.nextGroupId + 1 := by
  obtain ⟨g, -, -, h⟩ | ⟨-, h⟩ := upsertGroup_cases now v t <;> rw [h] <;> exact ⟨rfl, rfl, rfl⟩

theorem passes_cons (fault : PersistFault) (step : PersistStep) (steps : List PersistStep) :
    passes fault (step :: steps) = true ↔
      raisedAt fault step = none ∧ passes fault steps = true := by
  simp only [passes, List.all_cons, Bool.and_eq_true, Option.isNone_iff_eq_none]

variable [Platform]

theorem bindGroup_ok {now : Timestamp} {fault : PersistFault} {payload : LogIngestRequest}
    {timestamp : Timestamp} {t t' : LogTables} {bound : Option Str × Option Nat}
    (h : bindGroup now fault payload timestamp t = (.ok bound, t')) :
    (shouldGroup payload.logLevel = false ∧ bound = (none, none) ∧ t' = t) ∨
    (shouldGroup payload.logLevel = true ∧
      t' = (upsertGroup now (groupValues payload timestamp) t).2 ∧
      bound = (some (payloadFingerprint payload),
        some (upsertGroup now (groupValues payload timestamp) t).1)) := by
  unfold bindGroup at h
  cases grouped : shouldGroup payload.logLevel with
  | false =>
    simp only [grouped, Bool.false_eq_true, if_false, Prod.mk.injEq, Except.ok.injEq] at h
    exact .inl ⟨rfl, h.1.symm, h.2.symm⟩
  | true =>
    simp only [grouped, if_true] at h
    cases early : raisedAt fault .upsertGroup with
    | some e => simp [early] at h
    | none =>
      cases late : raisedAt fault .getGroup with
      | some e => simp [early, late] at h
      | none =>
        simp only [early, late, Prod.mk.injEq, Except.ok.injEq] at h
        exact .inr ⟨rfl, h.2.symm, h.1.symm⟩

theorem bindGroup_sequences (now : Timestamp) (fault : PersistFault) (payload : LogIngestRequest)
    (timestamp : Timestamp) (t : LogTables) :
    (bindGroup now fault payload timestamp t).2.nextLogId = t.nextLogId ∧
      t.nextGroupId ≤ (bindGroup now fault payload timestamp t).2.nextGroupId := by
  have seq := upsertGroup_logs now (groupValues payload timestamp) t
  unfold bindGroup
  split
  · split
    · exact ⟨rfl, le_refl _⟩
    · dsimp only
      split
      · exact ⟨seq.2.1, by rw [seq.2.2]; omega⟩
      · exact ⟨seq.2.1, by rw [seq.2.2]; omega⟩
  · exact ⟨rfl, le_refl _⟩

theorem persistLog_sequences (now : Timestamp) (fault : PersistFault) (payload : LogIngestRequest)
    (t : LogTables) : t.nextLogId ≤ (persistLog now fault payload t).2.nextLogId ∧
      t.nextGroupId ≤ (persistLog now fault payload t).2.nextGroupId := by
  unfold persistLog
  split
  · exact ⟨le_refl _, le_refl _⟩
  · rename_i timestamp _
    have seq := bindGroup_sequences now fault payload timestamp t
    split
    · rename_i e t' bound
      rw [bound] at seq
      exact ⟨seq.1.ge, seq.2⟩
    · rename_i fingerprint errorGroupId t' bound
      rw [bound] at seq
      have next : t.nextLogId ≤ t'.nextLogId + 1 := by
        have same := seq.1
        dsimp only at same
        omega
      split
      · exact ⟨seq.1.ge, seq.2⟩
      · dsimp only
        split <;> exact ⟨next, seq.2⟩

/-- The log and the tables of an ingestion that reached its end. -/
inductive Persists (now : Timestamp) (payload : LogIngestRequest) (t : LogTables) :
    Log → LogTables → Prop
  | ungrouped {timestamp : Timestamp} {log : Log} :
    asUtcAware payload.timestamp = some timestamp → shouldGroup payload.logLevel = false →
    log = logRow now payload timestamp none none t.nextLogId →
    Persists now payload t log ⟨t.logs ++ [log], t.errorGroups, t.nextLogId + 1, t.nextGroupId⟩
  | conflict {timestamp : Timestamp} {log : Log} {g : ErrorGroup} :
    asUtcAware payload.timestamp = some timestamp → shouldGroup payload.logLevel = true →
    g ∈ t.errorGroups → g.key = (groupValues payload timestamp).key →
    log = logRow now payload timestamp (some (payloadFingerprint payload)) (some g.id) t.nextLogId →
    Persists now payload t log ⟨t.logs ++ [log],
      t.errorGroups.map (groupValues payload timestamp).mergeInto,
      t.nextLogId + 1, t.nextGroupId + 1⟩
  | inserted {timestamp : Timestamp} {log : Log} :
    asUtcAware payload.timestamp = some timestamp → shouldGroup payload.logLevel = true →
    (∀ g ∈ t.errorGroups, g.key ≠ (groupValues payload timestamp).key) →
    log = logRow now payload timestamp (some (payloadFingerprint payload)) (some t.nextGroupId)
      t.nextLogId →
    Persists now payload t log ⟨t.logs ++ [log],
      t.errorGroups ++ [(groupValues payload timestamp).inserted t.nextGroupId now],
      t.nextLogId + 1, t.nextGroupId + 1⟩

theorem Persists.logs {now : Timestamp} {payload : LogIngestRequest} {t t' : LogTables} {log : Log}
    (persists : Persists now payload t log t') : t'.logs = t.logs ++ [log] := by
  cases persists <;> rfl

theorem Persists.keys {now : Timestamp} {payload : LogIngestRequest} {t t' : LogTables} {log : Log}
    (persists : Persists now payload t log t') (keys : (t.errorGroups.map ErrorGroup.key).Nodup) :
    (t'.errorGroups.map ErrorGroup.key).Nodup := by
  cases persists with
  | ungrouped => exact keys
  | @conflict timestamp =>
    rw [column_map (mergeInto_key (groupValues payload timestamp))]
    exact keys
  | inserted _ _ other _ =>
    rw [List.map_append, List.nodup_append]
    exact ⟨keys, List.nodup_singleton _, by simpa using other⟩

theorem persistLog_ok {now : Timestamp} {fault : PersistFault} {payload : LogIngestRequest}
    {t t' : LogTables} {log : Log} (h : persistLog now fault payload t = (.ok log, t')) :
    Persists now payload t log t' := by
  unfold persistLog at h
  cases aware : asUtcAware payload.timestamp with
  | none => simp [aware] at h
  | some timestamp =>
    simp only [aware] at h
    cases bound : bindGroup now fault payload timestamp t with
    | mk result t₁ =>
      cases result with
      | error e => simp [bound] at h
      | ok pair =>
        obtain ⟨fingerprint, errorGroupId⟩ := pair
        cases early : raisedAt fault .flushLog with
        | some e => simp [bound, early] at h
        | none =>
          cases late : raisedAt fault .refreshLog with
          | some e => simp [bound, early, late] at h
          | none =>
            simp only [bound, early, late, createLog, Prod.mk.injEq, Except.ok.injEq] at h
            obtain ⟨rfl, rfl⟩ := h
            obtain ⟨level, pair, rfl⟩ | ⟨level, rfl, pair⟩ := bindGroup_ok bound
            · obtain ⟨rfl, rfl⟩ := Prod.mk.injEq .. ▸ pair
              exact .ungrouped aware level rfl
            · obtain ⟨rfl, rfl⟩ := Prod.mk.injEq .. ▸ pair
              obtain ⟨g, hg, key, up⟩ | ⟨other, up⟩ :=
                upsertGroup_cases now (groupValues payload timestamp) t
              · rw [up]
                exact .conflict aware level hg key rfl
              · rw [up]
                exact .inserted aware level other rfl

/-- A log is persisted when its date is in range and none of its statements raises. -/
theorem persistLog_passes (now : Timestamp) (fault : PersistFault) (payload : LogIngestRequest)
    (t : LogTables) : (∃ log t', persistLog now fault payload t = (.ok log, t')) ↔
      asUtcAware payload.timestamp ≠ none ∧
        passes fault (stepsFor payload.logLevel) = true := by
  unfold persistLog bindGroup stepsFor
  cases asUtcAware payload.timestamp with
  | none => simp
  | some timestamp =>
    cases level : shouldGroup payload.logLevel <;>
      cases upsert : raisedAt fault .upsertGroup <;> cases get : raisedAt fault .getGroup <;>
      cases flush : raisedAt fault .flushLog <;> cases refresh : raisedAt fault .refreshLog <;>
      simp [passes, persistSteps, upsert, get, flush, refresh]

theorem persistLog_ok_iff (now : Timestamp) (fault : PersistFault) {payload : LogIngestRequest}
    (t : LogTables) (level : shouldGroup payload.logLevel = true) :
    (∃ log t', persistLog now fault payload t = (.ok log, t')) ↔
      asUtcAware payload.timestamp ≠ none ∧ passes fault persistSteps = true := by
  rw [persistLog_passes, stepsFor, if_pos level]

theorem persistInSavepoint_ok_iff (now : Timestamp) (fault : PersistFault)
    (payload : LogIngestRequest) (t : LogTables) :
    (∃ log t', persistInSavepoint now fault payload t = (.ok log, t')) ↔
      (∃ log t', persistLog now fault payload t = (.ok log, t')) ∧
        raisedAt fault .releaseSavepoint = none := by
  unfold persistInSavepoint
  cases persistLog now fault payload t with
  | mk result after =>
    cases result with
    | error e => simp
    | ok log => cases raisedAt fault .releaseSavepoint <;> simp

theorem ingestLog_ok_iff (now : Timestamp) (fault : PersistFault) (commitError : Option Str)
    {payload : LogIngestRequest} (t : LogTables) (level : shouldGroup payload.logLevel = true) :
    (∃ log t', ingestLog now fault commitError payload t = (.ok log, t')) ↔
      asUtcAware payload.timestamp ≠ none ∧
        passes fault persistSteps = true ∧ commitError = none := by
  unfold ingestLog
  rw [endTransaction_ok_iff, persistLog_ok_iff now fault t level, and_assoc]

theorem persistItem_ok_iff (now : Timestamp) (fault : PersistFault) (commitError : Option Str)
    {payload : LogIngestRequest} (t : LogTables) (level : shouldGroup payload.logLevel = true) :
    (∃ log t', persistItem now fault commitError payload t = (.ok log, t')) ↔
      asUtcAware payload.timestamp ≠ none ∧
        passes fault (.releaseSavepoint :: persistSteps) = true ∧ commitError = none := by
  unfold persistItem
  rw [endTransaction_ok_iff, persistInSavepoint_ok_iff, persistLog_ok_iff now fault t level,
    passes_cons]
  tauto

theorem persistInSavepoint_ok {now : Timestamp} {fault : PersistFault} {payload : LogIngestRequest}
    {t t' : LogTables} {log : Log} (h : persistInSavepoint now fault payload t = (.ok log, t')) :
    persistLog now fault payload t = (.ok log, t') := by
  unfold persistInSavepoint at h
  split at h
  · simp at h
  · rename_i persisted
    split at h
    · simp at h
    · rw [persisted, h]

theorem persistInSavepoint_sequences (now : Timestamp) (fault : PersistFault)
    (payload : LogIngestRequest) (t : LogTables) :
    t.nextLogId ≤ (persistInSavepoint now fault payload t).2.nextLogId ∧
      t.nextGroupId ≤ (persistInSavepoint now fault payload t).2.nextGroupId := by
  have seq := persistLog_sequences now fault payload t
  unfold persistInSavepoint
  split
  · rename_i persisted
    rw [persisted] at seq
    exact seq
  · rename_i persisted
    rw [persisted] at seq
    split <;> exact seq

theorem persistInSavepoint_error {now : Timestamp} {fault : PersistFault}
    {payload : LogIngestRequest} {t t' : LogTables} {e : Raised}
    (h : persistInSavepoint now fault payload t = (.error e, t')) : RolledBack t t' := by
  have seq := persistInSavepoint_sequences now fault payload t
  rw [h] at seq
  unfold persistInSavepoint at h
  split at h
  · simp only [Prod.mk.injEq] at h
    exact h.2 ▸ ⟨rfl, rfl, h.2 ▸ seq⟩
  · split at h
    · simp only [Prod.mk.injEq] at h
      exact h.2 ▸ ⟨rfl, rfl, h.2 ▸ seq⟩
    · simp at h

/-- A transaction that ingests one log inserts it or leaves the tables as they were. -/
theorem ingestion_cases {now : Timestamp} {payload : LogIngestRequest} {t : LogTables}
    {r : Except Raised Log × LogTables} (commitError : Option Str)
    (ok : ∀ log t', r = (.ok log, t') → Persists now payload t log t')
    (sequences : t.nextLogId ≤ r.2.nextLogId ∧ t.nextGroupId ≤ r.2.nextGroupId) :
    (∃ log t', endTransaction commitError t r = (.ok log, t') ∧ Persists now payload t log t') ∨
    ∃ e t', endTransaction commitError t r = (.error e, t') ∧ RolledBack t t' := by
  cases ended : endTransaction commitError t r with
  | mk result t' =>
    cases result with
    | ok log => exact .inl ⟨log, t', rfl, ok log t' (endTransaction_ok ended)⟩
    | error e => exact .inr ⟨e, t', rfl, endTransaction_error ended ▸ ⟨rfl, rfl, sequences⟩⟩

theorem ingestLog_cases (now : Timestamp) (fault : PersistFault) (commitError : Option Str)
    (payload : LogIngestRequest) (t : LogTables) :
    (∃ log t', ingestLog now fault commitError payload t = (.ok log, t') ∧
      Persists now payload t log t') ∨
    ∃ e t', ingestLog now fault commitError payload t = (.error e, t') ∧ RolledBack t t' :=
  ingestion_cases commitError (fun _ _ => persistLog_ok) (persistLog_sequences now fault payload t)

theorem persistItem_cases (now : Timestamp) (fault : PersistFault) (commitError : Option Str)
    (payload : LogIngestRequest) (t : LogTables) :
    (∃ log t', persistItem now fault commitError payload t = (.ok log, t') ∧
      Persists now payload t log t') ∨
    ∃ e t', persistItem now fault commitError payload t = (.error e, t') ∧ RolledBack t t' :=
  ingestion_cases commitError (fun _ _ persisted => persistLog_ok (persistInSavepoint_ok persisted))
    (persistInSavepoint_sequences now fault payload t)

end Specifications

end LogLens
