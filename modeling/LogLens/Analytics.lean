import LogLens.Ingestion
import LogLens.Library.LabelledMachine
import LogLens.Library.SqlQuery
import LogLens.Prompts

/-! `_recalculate_summary_analytics`: eight statements of one session at READ COMMITTED, each
on the rows that are committed when it runs, while other sessions insert and delete logs. The
counts of a table add up to the logs its own statement saw; the averages are kept exact. -/

namespace LogLens
open LabelledMachine SqlQuery

/-- `timedelta(hours=24)` -/
def analyticsWindow : Int := 24 * 3600000000

/-- A `dict` from names to counts. -/
structure CountTable where
  entries : List (Str × Nat)
  nodup : (entries.map (·.1)).Nodup

namespace CountTable

def empty : CountTable := ⟨[], List.nodup_nil⟩

/-- `{name(key): int(count) for key, count in rows.all()}`; no two rows give one name. -/
def ofRows {β : Type} (name : β → Str) (injective : Function.Injective name)
    (rows : List (β × Nat)) (keys : (rows.map (·.1)).Nodup) : CountTable where
  entries := rows.map fun row => (name row.1, row.2)
  nodup := by
    have names : (rows.map fun row => (name row.1, row.2)).map (·.1) =
        (rows.map (·.1)).map name := by simp
    rw [names]
    exact keys.map injective

def total (table : CountTable) : Nat := (table.entries.map (·.2)).sum

theorem ofRows_total {β : Type} (name : β → Str) (injective : Function.Injective name)
    (rows : List (β × Nat)) (keys : (rows.map (·.1)).Nodup) :
    (ofRows name injective rows keys).total = (rows.map (·.2)).sum := by
  rw [total, ofRows, List.map_map]
  rfl

end CountTable

/-- GROUP BY of the logs by a column, as a `dict` of the names of its values. -/
def countLogs {β : Type} [DecidableEq β] (column : Log → β) (name : β → Str)
    (injective : Function.Injective name) (logs : List Log) : CountTable :=
  .ofRows name injective (groupCounts column logs) (groupCounts_nodup column logs)

theorem countLogs_total {β : Type} [DecidableEq β] (column : Log → β) (name : β → Str)
    (injective : Function.Injective name) (logs : List Log) :
    (countLogs column name injective logs).total = logs.length := by
  rw [countLogs, CountTable.ofRows_total, groupCounts_sum]

/-- The names in the table are the ones of the values that occur in the column, each with the
number of its logs. -/
def CountTable.Groups {β : Type} [DecidableEq β] (column : Log → β) (name : β → Str)
    (logs : List Log) (table : CountTable) : Prop :=
  ∀ key count, (key, count) ∈ table.entries ↔
    0 < count ∧ ∃ value, name value = key ∧ (logs.map column).count value = count

theorem countLogs_groups {β : Type} [DecidableEq β] (column : Log → β) (name : β → Str)
    (injective : Function.Injective name) (logs : List Log) :
    (countLogs column name injective logs).Groups column name logs := by
  intro key count
  simp only [countLogs, CountTable.ofRows, List.mem_map, Prod.exists, mem_groupCounts,
    Prod.mk.injEq]
  constructor
  · rintro ⟨value, _, ⟨some, counted⟩, named, rfl⟩
    exact ⟨some, value, named, counted⟩
  · rintro ⟨some, value, named, counted⟩
    exact ⟨value, count, ⟨some, counted⟩, named, rfl⟩

structure ErrorGroupSummary where
  groupId : Nat
  title : Str
  occurrenceCount : Nat

structure AnalyticsSummary where
  generatedAt : Timestamp := 0
  totalLogs : Nat := 0
  logsLast24h : Nat := 0
  logsByService : CountTable := .empty
  logsByEnvironment : CountTable := .empty
  logsBySeverity : CountTable := .empty
  unresolvedErrorCount : Nat := 0
  mostFrequentErrorGroups : List ErrorGroupSummary := []
  avgOccurrencesPerGroup : ℚ := 0

/-- The statements, in the order of the task. -/
inductive AnalyticsStatement
  | totalLogs | last24h | byService | byEnvironment | bySeverity
  | unresolvedGroups | frequentGroups | avgOccurrences
  deriving DecidableEq

def analyticsStatements : List AnalyticsStatement :=
  [.totalLogs, .last24h, .byService, .byEnvironment, .bySeverity, .unresolvedGroups,
    .frequentGroups, .avgOccurrences]

theorem mem_analyticsStatements (statement : AnalyticsStatement) :
    statement ∈ analyticsStatements := by
  cases statement <;> decide

/-- `Log.timestamp >= since` -/
def logsSince (since : Timestamp) (t : LogTables) : List Log :=
  t.logs.filter fun log => since ≤ log.timestamp

def countByService : List Log → CountTable :=
  countLogs Log.serviceName id Function.injective_id

def countByEnvironment : List Log → CountTable :=
  countLogs Log.environment LogEnvironment.value LogEnvironment.value_injective

def countBySeverity : List Log → CountTable :=
  countLogs Log.logLevel LogLevel.value LogLevel.value_injective

/-- `order_by(occurrence_count.desc(), id.asc()).limit(10)` -/
def mostFrequent (groups : List ErrorGroup) : List ErrorGroupSummary :=
  ((orderBy .asc (fun g => -(g.occurrenceCount : Int)) ErrorGroup.id groups).take 10).map
    fun g => ⟨g.id, g.title, g.occurrenceCount⟩

/-- `coalesce(avg(occurrence_count), 0)` -/
def averageOccurrences (groups : List ErrorGroup) : ℚ :=
  if groups.isEmpty then 0
  else ((groups.map (·.occurrenceCount)).sum : ℚ) / groups.length

/-- Runs a statement on the committed rows. -/
def AnalyticsStatement.execute (since : Timestamp) (t : LogTables) :
    AnalyticsStatement → AnalyticsSummary → AnalyticsSummary
  | .totalLogs, p => { p with totalLogs := t.logs.length }
  | .last24h, p => { p with logsLast24h := (logsSince since t).length }
  | .byService, p => { p with logsByService := countByService (logsSince since t) }
  | .byEnvironment, p => { p with logsByEnvironment := countByEnvironment (logsSince since t) }
  | .bySeverity, p => { p with logsBySeverity := countBySeverity (logsSince since t) }
  | .unresolvedGroups, p =>
    { p with unresolvedErrorCount := t.errorGroups.countP fun g => g.status = .unresolved }
  | .frequentGroups, p => { p with mostFrequentErrorGroups := mostFrequent t.errorGroups }
  | .avgOccurrences, p => { p with avgOccurrencesPerGroup := averageOccurrences t.errorGroups }

structure AnalyticsRun where
  tables : LogTables
  remaining : List AnalyticsStatement := analyticsStatements
  summary : AnalyticsSummary := {}
  published : Option AnalyticsSummary := none
  /-- the rows that were committed when a statement ran -/
  seen : AnalyticsStatement → LogTables := fun _ => {}

inductive AnalyticsOp
  /-- the task runs its next statement -/
  | query
  /-- the payload is written to the cache -/
  | publish (now : Timestamp)
  /-- another session commits -/
  | insertLog (log : Log)
  | deleteLogs (ids : List Nat)
  | errorGroups (groups : List ErrorGroup)

def AnalyticsRun.query (since : Timestamp) (s : AnalyticsRun) : Option AnalyticsRun :=
  match s.remaining with
  | [] => none
  | statement :: rest => some { s with
      remaining := rest
      summary := statement.execute since s.tables s.summary
      seen := Function.update s.seen statement s.tables }

/-- `started` is the clock reading from which `since` is counted. -/
def analyticsMachine (started : Timestamp) : Machine AnalyticsRun AnalyticsOp where
  step s
    | .query => s.query (started - analyticsWindow)
    | .publish now =>
      if s.remaining = [] then
        some { s with published := some { s.summary with generatedAt := now } }
      else none
    | .insertLog log => some { s with tables := { s.tables with logs := s.tables.logs ++ [log] } }
    | .deleteLogs ids => some { s with
        tables := { s.tables with logs := s.tables.logs.filter fun log => log.id ∉ ids } }
    | .errorGroups groups => some { s with tables := { s.tables with errorGroups := groups } }

/-- The tables of a summary count its last day, and that is a part of all its logs. -/
def AnalyticsSummary.Consistent (p : AnalyticsSummary) : Prop :=
  p.logsByService.total = p.logsLast24h ∧ p.logsByEnvironment.total = p.logsLast24h ∧
    p.logsBySeverity.total = p.logsLast24h ∧ p.logsLast24h ≤ p.totalLogs

instance (p : AnalyticsSummary) : Decidable p.Consistent := by
  unfold AnalyticsSummary.Consistent
  infer_instance

/-- As many logs of the window are committed at the statements that group them as at the one
that counts them, and no more of them than all logs at the first statement. -/
def SteadyWindow (since : Timestamp) (seen : AnalyticsStatement → LogTables) : Prop :=
  (logsSince since (seen .byService)).length = (logsSince since (seen .last24h)).length ∧
    (logsSince since (seen .byEnvironment)).length = (logsSince since (seen .last24h)).length ∧
    (logsSince since (seen .bySeverity)).length = (logsSince since (seen .last24h)).length ∧
    (logsSince since (seen .last24h)).length ≤ (seen .totalLogs).logs.length

section Counts

/-- What a statement that has run put into the summary. -/
def Counted (since : Timestamp) (p : AnalyticsSummary) (t : LogTables) :
    AnalyticsStatement → Prop
  | .totalLogs => p.totalLogs = t.logs.length
  | .last24h => p.logsLast24h = (logsSince since t).length
  | .byService => p.logsByService = countByService (logsSince since t) ∧
    p.logsByService.Groups Log.serviceName id (logsSince since t)
  | .byEnvironment => p.logsByEnvironment = countByEnvironment (logsSince since t) ∧
    p.logsByEnvironment.Groups Log.environment LogEnvironment.value (logsSince since t)
  | .bySeverity => p.logsBySeverity = countBySeverity (logsSince since t) ∧
    p.logsBySeverity.Groups Log.logLevel LogLevel.value (logsSince since t)
  | .unresolvedGroups =>
    p.unresolvedErrorCount = t.errorGroups.countP fun g => g.status = .unresolved
  | .frequentGroups => p.mostFrequentErrorGroups = mostFrequent t.errorGroups
  | .avgOccurrences => p.avgOccurrencesPerGroup = averageOccurrences t.errorGroups

theorem counted_execute (since : Timestamp) (t : LogTables) (p : AnalyticsSummary)
    (statement : AnalyticsStatement) :
    Counted since (statement.execute since t p) t statement := by
  cases statement with
  | byService => exact ⟨rfl, countLogs_groups _ _ Function.injective_id _⟩
  | byEnvironment => exact ⟨rfl, countLogs_groups _ _ LogEnvironment.value_injective _⟩
  | bySeverity => exact ⟨rfl, countLogs_groups _ _ LogLevel.value_injective _⟩
  | totalLogs | last24h | unresolvedGroups | frequentGroups | avgOccurrences => rfl

/-- A statement leaves what the others counted. -/
theorem Counted.execute {since : Timestamp} {t t' : LogTables} {p : AnalyticsSummary}
    {statement other : AnalyticsStatement} (counted : Counted since p t' other)
    (different : other ≠ statement) : Counted since (statement.execute since t p) t' other := by
  cases other <;> cases statement <;> first | exact counted | exact absurd rfl different

structure AnalyticsInvariant (since : Timestamp) (s : AnalyticsRun) : Prop where
  /-- the statements that are left are the last ones -/
  suffix : s.remaining <:+ analyticsStatements
  counted : ∀ statement, statement ∉ s.remaining →
    Counted since s.summary (s.seen statement) statement
  published : ∀ p ∈ s.published, s.remaining = [] ∧
    ∀ statement, Counted since p (s.seen statement) statement

theorem analyticsInvariant_start (since : Timestamp) (t : LogTables) :
    AnalyticsInvariant since { tables := t } where
  suffix := List.suffix_rfl
  counted statement left := absurd (mem_analyticsStatements statement) left
  published := by rintro p ⟨⟩

variable {started : Timestamp} {s s' : AnalyticsRun} {op : AnalyticsOp}

theorem AnalyticsInvariant.query {since : Timestamp} (holds : AnalyticsInvariant since s)
    (moved : s.query since = some s') : AnalyticsInvariant since s' := by
  unfold AnalyticsRun.query at moved
  cases remaining : s.remaining with
  | nil => simp [remaining] at moved
  | cons statement rest =>
    simp only [remaining, Option.some.injEq] at moved
    subst moved
    have suffix := remaining ▸ holds.suffix
    have once : (statement :: rest).Nodup := suffix.sublist.nodup (by decide)
    refine ⟨(List.suffix_cons _ _).trans suffix, fun other left => ?_, fun p hp => ?_⟩
    · by_cases here : other = statement
      · subst here
        dsimp only
        rw [Function.update_self]
        exact counted_execute ..
      · dsimp only
        rw [Function.update_of_ne here]
        refine (holds.counted other ?_).execute here
        rw [remaining, List.mem_cons, not_or]
        exact ⟨here, left⟩
    · have emptied := (holds.published p hp).1
      rw [remaining] at emptied
      cases emptied

theorem AnalyticsInvariant.next
    (holds : AnalyticsInvariant (started - analyticsWindow) s)
    (moved : (analyticsMachine started).step s op = some s') :
    AnalyticsInvariant (started - analyticsWindow) s' := by
  cases op with
  | query => exact holds.query moved
  | publish now =>
    change (if s.remaining = [] then _ else none) = some s' at moved
    split at moved <;> cases moved
    rename_i emptied
    refine ⟨holds.suffix, holds.counted, ?_⟩
    rintro p ⟨⟩
    refine ⟨emptied, fun statement => ?_⟩
    have counted := holds.counted statement (by rw [emptied]; exact List.not_mem_nil)
    cases statement <;> exact counted
  | insertLog log =>
    cases moved
    exact ⟨holds.suffix, holds.counted, holds.published⟩
  | deleteLogs ids =>
    cases moved
    exact ⟨holds.suffix, holds.counted, holds.published⟩
  | errorGroups groups =>
    cases moved
    exact ⟨holds.suffix, holds.counted, holds.published⟩

end Counts

/-- The counts of every table of a published summary add up to the logs of the last day that
were committed when the statement of the table ran. So the summary is consistent exactly when
the commits between its statements leave that number as it was. -/
theorem summary_consistent_iff {started : Timestamp} {t : LogTables} {ops : List AnalyticsOp}
    {s : AnalyticsRun} (ran : (analyticsMachine started).run { tables := t } ops = some s)
    {p : AnalyticsSummary} (published : p ∈ s.published) :
    p.logsByService.total = (logsSince (started - analyticsWindow) (s.seen .byService)).length ∧
    p.logsByEnvironment.total =
      (logsSince (started - analyticsWindow) (s.seen .byEnvironment)).length ∧
    p.logsBySeverity.total =
      (logsSince (started - analyticsWindow) (s.seen .bySeverity)).length ∧
    p.logsLast24h = (logsSince (started - analyticsWindow) (s.seen .last24h)).length ∧
    p.totalLogs = (s.seen .totalLogs).logs.length ∧
    (p.Consistent ↔ SteadyWindow (started - analyticsWindow) s.seen) := by
  have holds : AnalyticsInvariant (started - analyticsWindow) s :=
    run_invariant (fun _ _ _ holds moved => AnalyticsInvariant.next holds moved)
      (analyticsInvariant_start _ t) ran
  have counted := (holds.published p published).2
  have service : p.logsByService.total =
      (logsSince (started - analyticsWindow) (s.seen .byService)).length := by
    rw [(counted .byService).1]
    exact countLogs_total ..
  have environment : p.logsByEnvironment.total =
      (logsSince (started - analyticsWindow) (s.seen .byEnvironment)).length := by
    rw [(counted .byEnvironment).1]
    exact countLogs_total ..
  have severity : p.logsBySeverity.total =
      (logsSince (started - analyticsWindow) (s.seen .bySeverity)).length := by
    rw [(counted .bySeverity).1]
    exact countLogs_total ..
  have lastDay := counted .last24h
  have total := counted .totalLogs
  refine ⟨service, environment, severity, lastDay, total, ?_⟩
  unfold Counted at lastDay total
  rw [AnalyticsSummary.Consistent, SteadyWindow, service, environment, severity, lastDay, total]

/-- Where the five statements see the same logs, the summary is consistent. -/
theorem steadyWindow_of_quiet {since : Timestamp} {seen : AnalyticsStatement → LogTables}
    {logs : List Log} (quiet : ∀ statement ∈ analyticsStatements.take 5,
      (seen statement).logs = logs) : SteadyWindow since seen := by
  have same : ∀ statement ∈ analyticsStatements.take 5,
      logsSince since (seen statement) = logs.filter fun log => since ≤ log.timestamp := by
    intro statement hs
    rw [logsSince, quiet statement hs]
  unfold SteadyWindow
  rw [same .byService (by decide), same .last24h (by decide), same .byEnvironment (by decide),
    same .bySeverity (by decide), quiet .totalLogs (by decide)]
  exact ⟨rfl, rfl, rfl, List.length_filter_le _ _⟩

/-- A log comes in behind the statement that counts the last day. -/
def insertedMeanwhile : List AnalyticsOp :=
  letI := asciiPlatform
  let log := logRow 0 (minimalRequest .info { clock := 0, utcoffset := none }) 0 none none 1
  [.query, .query, .insertLog log, .query, .query, .query, .query, .query, .query, .publish 1]

theorem summary_consistent_iff_insertedMeanwhile : ∃ s p,
    (analyticsMachine 0).run { tables := {} } insertedMeanwhile = some s ∧ p ∈ s.published ∧
    p.logsByService.total = 1 ∧ p.logsLast24h = 0 ∧
    (p.Consistent ↔ SteadyWindow (0 - analyticsWindow) s.seen) := by
  obtain ⟨s, ran⟩ : ∃ s, (analyticsMachine 0).run { tables := {} } insertedMeanwhile = some s :=
    Option.isSome_iff_exists.mp (by decide)
  have counts : ((analyticsMachine 0).run { tables := {} } insertedMeanwhile).map
      (fun s => s.published.map fun p => (p.logsByService.total, p.logsLast24h)) =
      some (some (1, 0)) := by decide
  rw [ran, Option.map_some, Option.some.injEq, Option.map_eq_some_iff] at counts
  obtain ⟨p, published, counts⟩ := counts
  rw [Prod.mk.injEq] at counts
  exact ⟨s, p, ran, published, counts.1, counts.2,
    (summary_consistent_iff ran published).2.2.2.2.2⟩

theorem summary_consistent_fails :
    ¬ ∀ (started : Timestamp) (t : LogTables) (ops : List AnalyticsOp) (s : AnalyticsRun),
      (analyticsMachine started).run { tables := t } ops = some s →
      ∀ p ∈ s.published, p.Consistent := by
  intro consistent
  have counts : ((analyticsMachine 0).run { tables := {} } insertedMeanwhile).map
      (fun s => s.published.map fun p => (p.logsByService.total, p.logsLast24h)) =
      some (some (1, 0)) := by decide
  obtain ⟨s, ran, counts⟩ := Option.map_eq_some_iff.mp counts
  obtain ⟨p, published, counts⟩ := Option.map_eq_some_iff.mp counts
  have service := (consistent 0 {} insertedMeanwhile s ran p published).1
  rw [Prod.mk.injEq] at counts
  rw [counts.1, counts.2] at service
  cases service

end LogLens
