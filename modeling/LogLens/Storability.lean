import LogLens.Ingestion

/-! What the columns of `logs` and `error_groups` take, against what the request
schema admits. The database is available: a statement raises exactly when a value
does not fit its column. -/

namespace LogLens

/-- The columns of `logs`; the fingerprint has its full length. -/
def Log.Storable (log : Log) : Prop :=
  FitsVarchar 128 log.serviceName ∧ NulFree log.message ∧ NulFree log.normalizedMessage ∧
    (∀ t ∈ log.exceptionType, FitsVarchar 255 t) ∧ (∀ t ∈ log.stackTrace, NulFree t) ∧
    log.metadata.storable = true ∧ (∀ f ∈ log.fingerprint, NulFree f ∧ f.length = 64) ∧
    InDatetimeRange log.timestamp

instance (log : Log) : Decidable log.Storable := by unfold Log.Storable; infer_instance

/-- The columns of `error_groups` that an upsert writes. -/
def GroupValues.Storable (v : GroupValues) : Prop :=
  (NulFree v.fingerprint ∧ v.fingerprint.length = 64) ∧ FitsVarchar 512 v.title ∧
    FitsVarchar 128 v.serviceName ∧ (∀ t ∈ v.exceptionType, FitsVarchar 255 t) ∧
    InDatetimeRange v.firstSeen ∧ InDatetimeRange v.lastSeen

instance (v : GroupValues) : Decidable v.Storable := by
  unfold GroupValues.Storable; infer_instance

/-- A runtime whose `hexdigest` is 64 hexadecimal digits. -/
class DigestPlatform extends Platform where
  sha256Hex_length : ∀ s, (sha256Hex s).length = 64
  sha256Hex_digits : ∀ s, ∀ c ∈ sha256Hex s, c ∈ "0123456789abcdef".toList

/-- The instant a `datetime` denotes, a naive one read as UTC. -/
def Datetime.instant (d : Datetime) : Timestamp := d.clock - d.utcoffset.getD 0

section Ingest
variable [Platform]

/-- The statement of `_persist_log` that the database refuses, if any. -/
def databaseFault (rejection : Str) (payload : LogIngestRequest) : PersistFault :=
  match asUtcAware payload.timestamp with
  | none => none
  | some timestamp =>
    let grouped := shouldGroup payload.logLevel
    if grouped ∧ ¬ (groupValues payload timestamp).Storable then some (.upsertGroup, rejection)
    else if (logRow 0 payload timestamp (if grouped then some (payloadFingerprint payload) else none)
        none 0).Storable then none
    else some (.flushLog, rejection)

/-- The ingestion succeeds, what it computes fits the columns, and the stored timestamp
is the instant submitted. -/
def StoresFaithfully (now : Timestamp) (rejection : Str) (t : LogTables)
    (payload : LogIngestRequest) : Prop :=
  ∃ log t', ingestLog now (databaseFault rejection payload) none payload t = (.ok log, t') ∧
    t'.logs = t.logs ++ [log] ∧ log.Storable ∧
    (shouldGroup payload.logLevel = true → (groupValues payload log.timestamp).Storable) ∧
    log.timestamp = payload.timestamp.instant

/-- No text of the request holds U+0000, the metadata have no lone surrogate and no number that
is infinite or not a number, and the timestamp has a date in UTC. -/
structure LogIngestRequest.Clean (payload : LogIngestRequest) : Prop where
  serviceName : NulFree payload.serviceName
  message : NulFree payload.message
  exceptionType : ∀ t ∈ payload.exceptionType, NulFree t
  stackTrace : ∀ t ∈ payload.stackTrace, NulFree t
  metadata : payload.metadata.storable = true
  timestamp : InDatetimeRange payload.timestamp.instant

end Ingest

section Columns

theorem asUtcAware_eq (d : Datetime) :
    asUtcAware d = if InDatetimeRange d.instant then some d.instant else none := by
  obtain ⟨clock, utcoffset, range⟩ := d
  cases utcoffset with
  | none => simp [asUtcAware, Datetime.instant, InDatetimeRange, range]
  | some offset => rfl

variable [Platform]

theorem normalizeMessage_nulFree {message : Str} (free : NulFree message) :
    NulFree (normalizeMessage message) := by
  intro nul
  refine normalizeMessage_holds (P := (· ≠ '\x00')) ?_ ?_ _ nul rfl
  · rintro c printable - rfl
    exact absurd printable (by decide)
  · rintro c hc rfl
    exact free hc

theorem groupTitle_fits {payload : LogIngestRequest} (clean : payload.Clean) :
    FitsVarchar 512 (groupTitle payload (normalizeMessage payload.message)) := by
  have cut {s : Str} (free : NulFree s) : FitsVarchar 512 (s.take 512) :=
    ⟨fun nul => free (List.mem_of_mem_take nul), List.length_take_le _ _⟩
  unfold groupTitle
  split
  · rename_i c rest given
    exact cut (clean.exceptionType _ given)
  · exact cut (normalizeMessage_nulFree clean.message)

end Columns

section Settled
variable [DigestPlatform]

theorem payloadFingerprint_fits (payload : LogIngestRequest) :
    NulFree (payloadFingerprint payload) ∧ (payloadFingerprint payload).length = 64 := by
  refine ⟨fun nul => ?_, DigestPlatform.sha256Hex_length _⟩
  exact absurd (DigestPlatform.sha256Hex_digits _ _ nul) (by decide)

theorem groupValues_storable {payload : LogIngestRequest} (clean : payload.Clean) :
    (groupValues payload payload.timestamp.instant).Storable :=
  ⟨payloadFingerprint_fits payload, groupTitle_fits clean,
    ⟨clean.serviceName, payload.serviceName_length.2⟩,
    fun t given => ⟨clean.exceptionType t given, payload.exceptionType_length t given⟩,
    clean.timestamp, clean.timestamp⟩

/-- Only the columns copied from the request and its timestamp can fail to fit. -/
theorem logRow_storable_iff (now : Timestamp) (payload : LogIngestRequest)
    {fingerprint : Option Str} (computed : ∀ f ∈ fingerprint, f = payloadFingerprint payload)
    (errorGroupId : Option Nat) (id : Nat) :
    (logRow now payload payload.timestamp.instant fingerprint errorGroupId id).Storable ↔
      payload.Clean := by
  constructor
  · rintro ⟨service, message, -, exceptionType, stackTrace, metadata, -, timestamp⟩
    exact ⟨service.1, message, fun t given => (exceptionType t given).1, stackTrace, metadata,
      timestamp⟩
  · intro clean
    have fits : ∀ f ∈ fingerprint, NulFree f ∧ f.length = 64 := by
      intro f given
      rw [computed f given]
      exact payloadFingerprint_fits payload
    unfold Log.Storable logRow
    dsimp only
    exact ⟨⟨clean.serviceName, payload.serviceName_length.2⟩, clean.message,
      normalizeMessage_nulFree clean.message,
      fun t given => ⟨clean.exceptionType t given, payload.exceptionType_length t given⟩,
      clean.stackTrace, clean.metadata, fits, clean.timestamp⟩

/-- The database refuses a statement that the ingestion reaches, unless the request is clean. -/
theorem databaseFault_cases (rejection : Str) {payload : LogIngestRequest}
    (dated : InDatetimeRange payload.timestamp.instant) :
    (payload.Clean ∧ databaseFault rejection payload = none) ∨
    (¬ payload.Clean ∧ ∃ step ∈ stepsFor payload.logLevel,
      databaseFault rejection payload = some (step, rejection)) := by
  have computed : ∀ f ∈ (if shouldGroup payload.logLevel then some (payloadFingerprint payload)
      else none), f = payloadFingerprint payload := by split <;> simp
  have row := logRow_storable_iff 0 payload computed none 0
  unfold databaseFault
  rw [asUtcAware_eq, if_pos dated]
  dsimp only
  by_cases clean : payload.Clean
  · refine .inl ⟨clean, ?_⟩
    rw [if_neg fun refused => refused.2 (groupValues_storable clean), if_pos (row.mpr clean)]
  · refine .inr ⟨clean, ?_⟩
    rw [if_neg (row.not.mpr clean)]
    split
    · rename_i refused
      exact ⟨.upsertGroup, by simp [stepsFor, refused.1, persistSteps], rfl⟩
    · refine ⟨.flushLog, ?_, rfl⟩
      unfold stepsFor persistSteps
      split <;> simp

theorem passes_databaseFault (rejection : Str) {payload : LogIngestRequest}
    (dated : InDatetimeRange payload.timestamp.instant) :
    passes (databaseFault rejection payload) (stepsFor payload.logLevel) = true ↔
      payload.Clean := by
  obtain ⟨clean, accepted⟩ | ⟨unclean, step, reached, refused⟩ :=
    databaseFault_cases rejection dated
  · rw [accepted]
    exact iff_of_true (List.all_eq_true.mpr fun _ _ => rfl) clean
  · refine iff_of_false (fun passed => ?_) unclean
    have here := List.all_eq_true.mp passed step reached
    rw [refused] at here
    simp [raisedAt] at here

theorem clean_of_stores {now : Timestamp} {rejection : Str} {t : LogTables}
    {payload : LogIngestRequest} (stores : StoresFaithfully now rejection t payload) :
    payload.Clean := by
  obtain ⟨log, t', ran, -⟩ := stores
  have persisted := (persistLog_passes now _ payload t).mp ⟨log, t', endTransaction_ok ran⟩
  rw [asUtcAware_eq] at persisted
  have dated : InDatetimeRange payload.timestamp.instant := by
    by_contra outside
    exact persisted.1 (if_neg outside)
  exact (passes_databaseFault rejection dated).mp persisted.2

theorem stores_of_clean (now : Timestamp) (rejection : Str) (t : LogTables)
    {payload : LogIngestRequest} (clean : payload.Clean) :
    StoresFaithfully now rejection t payload := by
  have aware := (asUtcAware_eq payload.timestamp).trans (if_pos clean.timestamp)
  obtain ⟨log, t', ran⟩ := (persistLog_passes now (databaseFault rejection payload) payload
    t).mpr ⟨by simp [aware], (passes_databaseFault rejection clean.timestamp).mpr clean⟩
  have persists := persistLog_ok ran
  have ingested : ingestLog now (databaseFault rejection payload) none payload t =
      (.ok log, t') := by
    rw [ingestLog, ran, endTransaction]
  have stored : log.Storable ∧ log.timestamp = payload.timestamp.instant := by
    cases persists with
    | ungrouped own level row =>
      rw [own, Option.some.injEq] at aware
      subst row aware
      exact ⟨(logRow_storable_iff now payload (by simp) _ _).mpr clean, rfl⟩
    | conflict own level hg key row =>
      rw [own, Option.some.injEq] at aware
      subst row aware
      exact ⟨(logRow_storable_iff now payload (by simp) _ _).mpr clean, rfl⟩
    | inserted own level other row =>
      rw [own, Option.some.injEq] at aware
      subst row aware
      exact ⟨(logRow_storable_iff now payload (by simp) _ _).mpr clean, rfl⟩
  refine ⟨log, t', ingested, persists.logs, stored.1, fun _ => ?_, stored.2⟩
  rw [stored.2]
  exact groupValues_storable clean

/-- A validated request is stored, with values that fit their columns and the instant it
was submitted with, exactly when it is clean. -/
theorem stores_iff_clean (now : Timestamp) (rejection : Str) (t : LogTables)
    (payload : LogIngestRequest) :
    StoresFaithfully now rejection t payload ↔ payload.Clean :=
  ⟨clean_of_stores, stores_of_clean now rejection t⟩

end Settled

@[reducible] def zeroDigest : DigestPlatform where
  toPlatform := { asciiPlatform with sha256Hex := fun _ => List.replicate 64 '0' }
  sha256Hex_length _ := rfl
  sha256Hex_digits _ c hc := by
    rw [List.eq_of_mem_replicate hc]
    decide

/-- A message with U+0000 passes the schema and is not stored. -/
theorem stores_fails :
    ¬ ∀ (_ : DigestPlatform) (now : Timestamp) (rejection : Str) (t : LogTables)
      (payload : LogIngestRequest), StoresFaithfully now rejection t payload := by
  intro stores
  let _ := zeroDigest
  let payload : LogIngestRequest :=
    { minimalRequest .info { clock := 0, utcoffset := none } with
      message := ['a', '\x00']
      message_length := by decide }
  have clean := clean_of_stores (stores zeroDigest 0 [] {} payload)
  exact clean.message (by decide)

end LogLens
