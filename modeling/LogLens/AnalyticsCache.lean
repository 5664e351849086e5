import LogLens.Analytics

/-! The cached summary: executions of the task at any time, in any number and cut off anywhere,
a key with an expiry that the server may also lose, and `get_summary`. -/

namespace LogLens
open LabelledMachine

structure CacheEntry where
  summary : AnalyticsSummary
  expiresAt : Timestamp

/-- An execution of `_recalculate_summary_analytics`. -/
structure AnalyticsTask where
  started : Timestamp
  remaining : List AnalyticsStatement := analyticsStatements
  summary : AnalyticsSummary := {}
  /-- the payload, with the clock reading behind the last statement -/
  payload : Option AnalyticsSummary := none

structure SummaryCache (ι : Type) where
  clock : Timestamp
  tables : LogTables
  tasks : ι → Option AnalyticsTask := fun _ => none
  entry : Option CacheEntry := none

inductive CacheOp (ι : Type)
  | advance (now : Timestamp)
  /-- another session commits -/
  | commit (tables : LogTables)
  | start (i : ι)
  | query (i : ι)
  | build (i : ι)
  | publish (i : ι)
  /-- an execution ends, in an exception or behind its last command -/
  | stop (i : ι)
  | evict

section Machine
variable {ι : Type} [DecidableEq ι] (analyticsCacheTtlSeconds : Int)

/-- `analytics_cache_ttl_seconds` on the clock. -/
def cacheTtl : Int := analyticsCacheTtlSeconds * 1000000

namespace SummaryCache

def set (s : SummaryCache ι) (i : ι) (task : Option AnalyticsTask) : SummaryCache ι :=
  { s with tasks := Function.update s.tasks i task }

def query (s : SummaryCache ι) (i : ι) : Option (SummaryCache ι) :=
  (s.tasks i).bind fun task =>
    match task.remaining with
    | [] => none
    | statement :: rest => some (s.set i (some { task with
        remaining := rest
        summary := statement.execute (task.started - analyticsWindow) s.tables task.summary }))

def build (s : SummaryCache ι) (i : ι) : Option (SummaryCache ι) :=
  (s.tasks i).bind fun task =>
    if task.remaining = [] then
      some (s.set i (some { task with
        payload := some { task.summary with generatedAt := s.clock } }))
    else none

/-- `redis.set(_ANALYTICS_CACHE_KEY, json.dumps(payload), ex=...)` -/
def publish (s : SummaryCache ι) (i : ι) : Option (SummaryCache ι) :=
  ((s.tasks i).bind (·.payload)).map fun payload =>
    { s with entry := some ⟨payload, s.clock + cacheTtl analyticsCacheTtlSeconds⟩ }

end SummaryCache

def cacheMachine : Machine (SummaryCache ι) (CacheOp ι) where
  step s
    | .advance now => if s.clock ≤ now then some { s with clock := now } else none
    | .commit tables => some { s with tables := tables }
    | .start i => if (s.tasks i).isNone then some (s.set i (some { started := s.clock })) else none
    | .query i => s.query i
    | .build i => s.build i
    | .publish i => s.publish analyticsCacheTtlSeconds i
    | .stop i => some (s.set i none)
    | .evict => some { s with entry := none }

end Machine

section Sources
variable {ι : Type} [DecidableEq ι] (ttl : Int) (s₀ : SummaryCache ι)

/-- The state is passed through in the run. -/
def Passed (ops : List (CacheOp ι)) (u : SummaryCache ι) : Prop :=
  ∃ before, before <+: ops ∧ (cacheMachine ttl).run s₀ before = some u

/-- What the statement put into the summary is counted on the rows that were committed at some
time of the run between two others. -/
def Sourced (ops : List (CacheOp ι)) (started done : Timestamp) (p : AnalyticsSummary)
    (statement : AnalyticsStatement) : Prop :=
  ∃ u, Passed ttl s₀ ops u ∧ started ≤ u.clock ∧ u.clock ≤ done ∧
    Counted (started - analyticsWindow) p u.tables statement

structure TaskInvariant (ops : List (CacheOp ι)) (clock : Timestamp) (task : AnalyticsTask) :
    Prop where
  started : task.started ≤ clock
  suffix : task.remaining <:+ analyticsStatements
  counted : ∀ statement, statement ∉ task.remaining →
    Sourced ttl s₀ ops task.started clock task.summary statement
  payload : ∀ p ∈ task.payload, task.started ≤ p.generatedAt ∧ p.generatedAt ≤ clock ∧
    ∀ statement, Sourced ttl s₀ ops task.started p.generatedAt p statement

/-- A step of the run published the payload at the time. -/
def PublishedAt (ops : List (CacheOp ι)) (p : AnalyticsSummary) (written : Timestamp) : Prop :=
  ∃ before i u, before ++ [.publish i] <+: ops ∧ (cacheMachine ttl).run s₀ before = some u ∧
    u.clock = written ∧ (u.tasks i).bind (·.payload) = some p

/-- A summary with the time it was written at. -/
structure Written (ops : List (CacheOp ι)) (p : AnalyticsSummary) (written : Timestamp) :
    Prop where
  published : PublishedAt ttl s₀ ops p written
  generated : p.generatedAt ≤ written
  sourced : ∃ started, started ≤ p.generatedAt ∧
    ∀ statement, Sourced ttl s₀ ops started p.generatedAt p statement

structure CacheInvariant (ops : List (CacheOp ι)) (s : SummaryCache ι) : Prop where
  tasks : ∀ i, ∀ task ∈ s.tasks i, TaskInvariant ttl s₀ ops s.clock task
  entry : ∀ e ∈ s.entry, ∃ written, written ≤ s.clock ∧ e.expiresAt = written + cacheTtl ttl ∧
    Written ttl s₀ ops e.summary written

variable {ttl s₀} {ops : List (CacheOp ι)} {op : CacheOp ι}

theorem Passed.mono {u : SummaryCache ι} (h : Passed ttl s₀ ops u) :
    Passed ttl s₀ (ops ++ [op]) u := by
  obtain ⟨before, begins, ran⟩ := h
  exact ⟨before, begins.trans (List.prefix_append _ _), ran⟩

theorem Sourced.mono {started done done' : Timestamp} {p : AnalyticsSummary}
    {statement : AnalyticsStatement} (h : Sourced ttl s₀ ops started done p statement)
    (later : done ≤ done') : Sourced ttl s₀ (ops ++ [op]) started done' p statement := by
  obtain ⟨u, passed, from', to', counted⟩ := h
  exact ⟨u, passed.mono, from', to'.trans later, counted⟩

theorem TaskInvariant.mono {clock clock' : Timestamp} {task : AnalyticsTask}
    (h : TaskInvariant ttl s₀ ops clock task) (later : clock ≤ clock') :
    TaskInvariant ttl s₀ (ops ++ [op]) clock' task where
  started := h.started.trans later
  suffix := h.suffix
  counted statement done := (h.counted statement done).mono later
  payload p hp :=
    have ⟨started, generated, sourced⟩ := h.payload p hp
    ⟨started, generated.trans later, fun statement => (sourced statement).mono le_rfl⟩

theorem Written.mono {p : AnalyticsSummary} {written : Timestamp}
    (h : Written ttl s₀ ops p written) : Written ttl s₀ (ops ++ [op]) p written where
  published :=
    have ⟨before, i, u, begins, rest⟩ := h.published
    ⟨before, i, u, begins.trans (List.prefix_append _ _), rest⟩
  generated := h.generated
  sourced :=
    have ⟨started, before, sourced⟩ := h.sourced
    ⟨started, before, fun statement => (sourced statement).mono le_rfl⟩

/-- What a step leaves alone stays as it was. -/
theorem CacheInvariant.mono {s : SummaryCache ι} (h : CacheInvariant ttl s₀ ops s)
    {clock : Timestamp} (later : s.clock ≤ clock) (tables : LogTables) :
    CacheInvariant ttl s₀ (ops ++ [op]) { s with clock := clock, tables := tables } where
  tasks i task ht := (h.tasks i task ht).mono later
  entry e he :=
    have ⟨written, past, expires, whole⟩ := h.entry e he
    ⟨written, past.trans later, expires, whole.mono⟩

theorem CacheInvariant.set {s : SummaryCache ι} (h : CacheInvariant ttl s₀ ops s) {i : ι}
    {task : Option AnalyticsTask} (own : ∀ t ∈ task, TaskInvariant ttl s₀ ops s.clock t) :
    CacheInvariant ttl s₀ ops (s.set i task) where
  tasks k t ht := by
    have ht : t ∈ Function.update s.tasks i task k := ht
    by_cases here : k = i
    · subst here
      rw [Function.update_self] at ht
      exact own t ht
    · rw [Function.update_of_ne here] at ht
      exact h.tasks k t ht
  entry := h.entry

theorem TaskInvariant.query {s : SummaryCache ι} {task : AnalyticsTask}
    (h : TaskInvariant ttl s₀ ops s.clock task) (passed : Passed ttl s₀ ops s)
    {statement : AnalyticsStatement} {rest : List AnalyticsStatement}
    (remaining : task.remaining = statement :: rest) : TaskInvariant ttl s₀ ops s.clock
      { task with
        remaining := rest
        summary := statement.execute (task.started - analyticsWindow) s.tables task.summary } where
  started := h.started
  suffix := (List.suffix_cons _ _).trans (remaining ▸ h.suffix)
  counted other done := by
    by_cases here : other = statement
    · exact ⟨s, passed, h.started, le_rfl, here ▸ counted_execute _ _ _ _⟩
    · have before : other ∉ task.remaining := by
        rw [remaining, List.mem_cons, not_or]
        exact ⟨here, done⟩
      obtain ⟨u, passed, from', to', counted⟩ := h.counted other before
      exact ⟨u, passed, from', to', counted.execute here⟩
  payload := h.payload

theorem TaskInvariant.build {clock : Timestamp} {task : AnalyticsTask}
    (h : TaskInvariant ttl s₀ ops clock task) (ended : task.remaining = []) :
    TaskInvariant ttl s₀ ops clock
      { task with payload := some { task.summary with generatedAt := clock } } where
  started := h.started
  suffix := h.suffix
  counted := h.counted
  payload := by
    rintro p ⟨⟩
    refine ⟨h.started, le_rfl, fun statement => ?_⟩
    obtain ⟨u, passed, from', to', counted⟩ := h.counted statement (by simp [ended])
    refine ⟨u, passed, from', to', ?_⟩
    cases statement <;> exact counted

theorem CacheInvariant.next {s t : SummaryCache ι} (h : CacheInvariant ttl s₀ ops s)
    (ran : (cacheMachine ttl).run s₀ ops = some s)
    (moved : (cacheMachine ttl).step s op = some t) : CacheInvariant ttl s₀ (ops ++ [op]) t := by
  have kept : CacheInvariant ttl s₀ (ops ++ [op]) s := h.mono le_rfl s.tables
  have passed : Passed ttl s₀ (ops ++ [op]) s := ⟨ops, List.prefix_append _ _, ran⟩
  cases op with
  | advance now =>
    simp only [cacheMachine, Option.ite_none_right_eq_some, Option.some.injEq] at moved
    obtain ⟨later, rfl⟩ := moved
    exact h.mono later s.tables
  | commit tables =>
    cases moved
    exact h.mono le_rfl tables
  | start i =>
    simp only [cacheMachine, Option.ite_none_right_eq_some, Option.some.injEq] at moved
    obtain ⟨-, rfl⟩ := moved
    refine kept.set ?_
    rintro task ⟨⟩
    exact ⟨le_rfl, List.suffix_rfl,
      fun statement done => absurd (mem_analyticsStatements statement) done, by rintro p ⟨⟩⟩
  | query i =>
    obtain ⟨task, own, moved⟩ := Option.bind_eq_some_iff.mp moved
    cases remaining : task.remaining with
    | nil =>
      rw [remaining] at moved
      cases moved
    | cons statement rest =>
      simp only [remaining, Option.some.injEq] at moved
      subst moved
      refine kept.set ?_
      rintro _ ⟨⟩
      exact (kept.tasks i task own).query passed remaining
  | build i =>
    obtain ⟨task, own, moved⟩ := Option.bind_eq_some_iff.mp moved
    simp only [Option.ite_none_right_eq_some, Option.some.injEq] at moved
    obtain ⟨ended, rfl⟩ := moved
    refine kept.set ?_
    rintro _ ⟨⟩
    exact (kept.tasks i task own).build ended
  | publish i =>
    obtain ⟨payload, own, rfl⟩ := Option.map_eq_some_iff.mp moved
    obtain ⟨task, running, built⟩ := Option.bind_eq_some_iff.mp own
    obtain ⟨started, generated, sourced⟩ := (kept.tasks i task running).payload payload built
    refine ⟨kept.tasks, ?_⟩
    rintro _ ⟨⟩
    exact ⟨s.clock, le_rfl, rfl, ⟨ops, i, s, List.prefix_refl _, ran, rfl, own⟩, generated,
      task.started, started, sourced⟩
  | stop i =>
    cases moved
    exact kept.set (by rintro _ ⟨⟩)
  | evict =>
    cases moved
    exact ⟨kept.tasks, by rintro _ ⟨⟩⟩

end Sources

end LogLens
