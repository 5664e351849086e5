import Mathlib.Algebra.GroupWithZero.Nat
import LogLens.BulkWorker
import LogLens.GroupBookkeeping
import LogLens.Library.LabelledMachine

/-! Executions of one bulk job, one after another. Each may be cut off between
two commits, and the job is then delivered or retried again. `persisted` lists
the items committed so far with their logs, the last one first. -/

namespace LogLens
open LabelledMachine

structure CrashRun where
  job : BackgroundJob
  tables : LogTables
  exec : Option BulkExec := none
  persisted : List (Nat × Log) := []

inductive CrashOp
  /-- a delivery of the message, or a retry -/
  | deliver
  | step (event : BulkEvent)
  /-- a crash of the worker, or an exception -/
  | cutOff
  deriving DecidableEq

def BulkExec.ended : BulkExec → Bool
  | .returned _ | .raised _ => true
  | .started | .loaded _ | .items .. => false

def CrashRun.next [Platform] (s : CrashRun) : CrashOp → Option CrashRun
  | .deliver =>
    if s.exec.all BulkExec.ended then some { s with exec := some .started } else none
  | .step event =>
    s.exec.bind fun exec =>
      (bulkStep exec event s.job s.tables).map fun outcome =>
        { job := outcome.row
          tables := outcome.tables
          exec := some outcome.exec
          persisted := outcome.persisted.toList ++ s.persisted }
  | .cutOff => some { s with exec := none }

def crashMachine [Platform] : Machine CrashRun CrashOp := ⟨CrashRun.next⟩

/-- A bulk job as `create_job` inserts it, and no execution yet. -/
def CrashRun.Initial (s : CrashRun) : Prop :=
  (∃ jobId args, s.job = newJob jobId args) ∧ s.exec = none ∧ s.persisted = []

/-- An execution that gets past the skip check finds no success counted yet. -/
def FreshLoad (s : CrashRun) (op : CrashOp) : Prop :=
  s.exec = some .started → op = .step .load → skipsExecution s.job.status = false →
    s.job.successCount = 0

instance (s : CrashRun) (op : CrashOp) : Decidable (FreshLoad s op) := by
  unfold FreshLoad
  infer_instance

/-- The logs committed for the item at an index. -/
def CrashRun.rowsOf (s : CrashRun) (index : Nat) : List (Nat × Log) :=
  s.persisted.filter fun p => p.1 = index

def LogTables.occurrences (t : LogTables) : Nat :=
  (t.errorGroups.map ErrorGroup.occurrenceCount).sum

section Persisted

theorem sum_mergeInto {v : GroupValues} {groups : List ErrorGroup}
    (keys : (groups.map ErrorGroup.key).Nodup) {g : ErrorGroup} (hg : g ∈ groups)
    (key : g.key = v.key) :
    ((groups.map v.mergeInto).map ErrorGroup.occurrenceCount).sum =
      (groups.map ErrorGroup.occurrenceCount).sum + 1 := by
  induction groups with
  | nil => cases hg
  | cons h rest ih =>
    rw [List.map_cons, List.nodup_cons] at keys
    simp only [List.map_cons, List.sum_cons]
    cases List.mem_cons.mp hg with
    | inl here =>
      subst here
      have untouched : ∀ h ∈ rest, v.mergeInto h = h := by
        intro h hh
        refine if_neg fun same => keys.1 ?_
        rw [key, ← same]
        exact List.mem_map_of_mem hh
      rw [List.map_congr_left untouched, List.map_id']
      simp only [GroupValues.mergeInto, if_pos key, GroupValues.onConflict]
      omega
    | inr later =>
      have other : h.key ≠ v.key := by
        intro same
        refine keys.1 ?_
        rw [same, ← key]
        exact List.mem_map_of_mem later
      rw [ih keys.2 later]
      simp only [GroupValues.mergeInto, if_neg other]
      omega

variable [Platform]

/-- One ingestion counts one occurrence if its log is bound. -/
theorem Persists.occurrences {now : Timestamp} {payload : LogIngestRequest} {t t' : LogTables}
    {log : Log}
    (persists : Persists now payload t log t')
    (keys : (t.errorGroups.map ErrorGroup.key).Nodup) :
    t'.occurrences = t.occurrences + if log.errorGroupId.isSome then 1 else 0 := by
  cases persists with
  | ungrouped _ _ row => simp [row, logRow, LogTables.occurrences]
  | conflict _ _ hg key row =>
    simp only [LogTables.occurrences, row, logRow]
    rw [sum_mergeInto keys hg key]
    rfl
  | inserted _ _ other row =>
    simp [LogTables.occurrences, row, logRow, GroupValues.inserted]

end Persisted

section Effects
variable [Platform]

/-- What an operation does when the execution at work holds the committed row. -/
inductive CrashEffect (s : CrashRun) : CrashOp → CrashRun → Prop
  | delivers : s.exec.all BulkExec.ended = true →
    CrashEffect s .deliver { s with exec := some .started }
  | cutsOff : CrashEffect s .cutOff { s with exec := none }
  | steps {exec : BulkExec} {event : BulkEvent} {outcome : BulkOutcome} : s.exec = some exec →
    bulkStep exec event s.job s.tables = some outcome → BulkEffect s.job s.tables exec outcome →
    CrashEffect s (.step event) ⟨outcome.row, outcome.tables, some outcome.exec,
      outcome.persisted.toList ++ s.persisted⟩

theorem crash_effect {s t : CrashRun} {op : CrashOp}
    (copy : ∀ exec, s.exec = some exec → exec.holds s.job)
    (moved : crashMachine.step s op = some t) : CrashEffect s op t := by
  cases op with
  | deliver =>
    simp only [crashMachine, CrashRun.next] at moved
    split at moved
    · rename_i idle
      cases moved
      exact .delivers idle
    · cases moved
  | step event =>
    simp only [crashMachine, CrashRun.next, Option.bind_eq_some_iff, Option.map_eq_some_iff]
      at moved
    obtain ⟨exec, running, outcome, moved, rfl⟩ := moved
    exact .steps running moved (bulkStep_effect (copy exec running) moved)
  | cutOff =>
    cases moved
    exact .cutsOff

/-- An execution goes on with the row it wrote. -/
theorem BulkEffect.holds {row : BackgroundJob} {tables : LogTables} {exec : BulkExec}
    {outcome : BulkOutcome} (effect : BulkEffect row tables exec outcome) :
    outcome.exec.holds outcome.row := by
  cases effect with
  | enters now celeryTaskId =>
    simp only [enterLoop]
    split <;> trivial
  | loads | persists | fails => rfl
  | skips | breaks | completes => trivial

theorem CrashEffect.holds {s t : CrashRun} {op : CrashOp} (effect : CrashEffect s op t) :
    ∀ exec, t.exec = some exec → exec.holds t.job := by
  cases effect with
  | delivers =>
    rintro _ ⟨⟩
    trivial
  | cutsOff => rintro _ ⟨⟩
  | steps _ _ effect =>
    rintro _ ⟨⟩
    exact effect.holds

end Effects

section Invariant

/-- A loop in progress: the row is RUNNING and counts the successes of this loop
from its first item on. -/
def LoopCounts (row : BackgroundJob) (persisted : Nat) : Option BulkExec → Prop
  | some (.items _ logs index successCount _) =>
    logs ≠ [] ∧ row.status = .running ∧ (index = 0 → successCount = 0) ∧
      (0 < index → row.successCount = successCount) ∧ successCount ≤ persisted
  | some (.loaded _) => skipsExecution row.status = false
  | _ => True

/-- What holds in every run from `t₀`, whether or not its loads are fresh. -/
structure CrashInvariant (t₀ : LogTables) (s : CrashRun) : Prop where
  copy : ∀ exec, s.exec = some exec → exec.holds s.job
  status : s.job.status ≠ .failed
  loop : LoopCounts s.job s.persisted.length s.exec
  counted : s.job.successCount ≤ s.persisted.length
  keys : (s.tables.errorGroups.map ErrorGroup.key).Nodup
  logs : s.tables.logs = t₀.logs ++ (s.persisted.map (·.2)).reverse
  occurrences : s.tables.occurrences = t₀.occurrences +
    (s.persisted.filter fun p => p.2.errorGroupId.isSome).length

theorem crashInvariant_initial {s : CrashRun} (initial : s.Initial)
    (keys : (s.tables.errorGroups.map ErrorGroup.key).Nodup) : CrashInvariant s.tables s := by
  obtain ⟨⟨jobId, args, job⟩, exec, persisted⟩ := initial
  refine ⟨?_, ?_, ?_, ?_, keys, ?_, ?_⟩
  · intro exec' running
    rw [exec] at running
    cases running
  · rw [job]
    intro failed
    cases failed
  · rw [exec]
    trivial
  · rw [job]
    exact Nat.zero_le _
  · simp [persisted]
  · simp [persisted]

theorem rolledBack_occurrences {t t' : LogTables} (rolled : RolledBack t t') :
    t'.occurrences = t.occurrences := by
  unfold LogTables.occurrences
  rw [rolled.2.1]

/-- Everything persisted so far belongs to the loop in progress. -/
def LoopOwns (persisted : List (Nat × Log)) : Option BulkExec → Prop
  | some (.loaded _) => persisted = []
  | some (.items _ _ index successCount _) =>
    persisted.length = successCount ∧ ∀ p ∈ persisted, p.1 < index
  | _ => True

/-- What holds besides while every load is fresh. -/
structure FreshInvariant (s : CrashRun) : Prop where
  total : s.persisted.length = s.job.successCount
  distinct : (s.persisted.map (·.1)).Nodup
  loop : LoopOwns s.persisted s.exec

theorem freshInvariant_initial {s : CrashRun} (initial : s.Initial) : FreshInvariant s := by
  obtain ⟨⟨jobId, args, job⟩, exec, persisted⟩ := initial
  refine ⟨?_, ?_, ?_⟩
  · rw [persisted, job]
    rfl
  · rw [persisted]
    exact List.nodup_nil
  · rw [exec]
    trivial

/-- More rows are persisted than the loop, or the terminal row, will ever count. -/
structure Surplus (s : CrashRun) : Prop where
  positive : 0 < s.persisted.length
  loop : ∀ job logs index successCount failures,
    s.exec = some (.items job logs index successCount failures) → successCount < s.persisted.length
  terminal : s.job.status.active = false → s.job.successCount < s.persisted.length

/-- Every item has at most one row and one occurrence, and a terminal job counts the rows. -/
def OncePerItem (t₀ : LogTables) (s : CrashRun) : Prop :=
  (∀ index, (s.rowsOf index).length ≤ 1) ∧
  s.tables.logs = t₀.logs ++ (s.persisted.map (·.2)).reverse ∧
  s.tables.occurrences = t₀.occurrences +
    (s.persisted.filter fun p => p.2.errorGroupId.isSome).length ∧
  (s.job.status.active = false → s.persisted.length = s.job.successCount)

theorem FreshInvariant.once {t₀ : LogTables} {s : CrashRun} (valid : CrashInvariant t₀ s)
    (holds : FreshInvariant s) : OncePerItem t₀ s := by
  refine ⟨fun index => ?_, valid.logs, valid.occurrences, fun _ => holds.total⟩
  have counts := List.nodup_iff_count_le_one.mp holds.distinct index
  rw [List.count_eq_countP, List.countP_map, List.countP_eq_length_filter] at counts
  simpa [CrashRun.rowsOf, Function.comp_def, beq_eq_decide] using counts

variable [Platform]

/-- What a step of the execution keeps, from what the step does. -/
theorem CrashInvariant.effect {t₀ : LogTables} {s : CrashRun} (holds : CrashInvariant t₀ s)
    {exec : BulkExec} (running : s.exec = some exec) {outcome : BulkOutcome}
    (effect : BulkEffect s.job s.tables exec outcome) :
    CrashInvariant t₀ ⟨outcome.row, outcome.tables, some outcome.exec,
      outcome.persisted.toList ++ s.persisted⟩ := by
  have loop := holds.loop
  have copy : ∀ exec', some outcome.exec = some exec' → exec'.holds outcome.row := by
    rintro _ ⟨⟩
    exact effect.holds
  rw [running] at loop
  cases effect with
  | loads active => exact { holds with copy := copy, loop := active }
  | skips => exact { holds with copy := copy, loop := trivial }
  | breaks _ rolled =>
    refine { holds with copy := copy, loop := trivial, keys := ?_, logs := ?_, occurrences := ?_ }
    · exact rolled.2.1 ▸ holds.keys
    · exact rolled.1.trans holds.logs
    · exact (rolledBack_occurrences rolled).trans holds.occurrences
  | enters now celeryTaskId =>
    refine { holds with copy := copy, status := ?_, loop := ?_, counted := holds.counted }
    · intro failed
      cases failed
    · unfold enterLoop
      split
      · exact ⟨List.cons_ne_nil _ _, rfl, fun _ => rfl, fun h => absurd h (lt_irrefl 0),
          Nat.zero_le _⟩
      · trivial
  | persists here persisted =>
    have persists := persistLog_ok (persistInSavepoint_ok persisted)
    obtain ⟨nonempty, status, -, -, bound⟩ := loop
    have bound' : _ + 1 ≤ s.persisted.length + 1 := Nat.succ_le_succ bound
    refine ⟨copy, ?_, ?_, ?_, persists.keys holds.keys, ?_, ?_⟩
    · exact holds.status
    · exact ⟨nonempty, status, fun h => absurd h (Nat.succ_ne_zero _), fun _ => rfl, bound'⟩
    · exact bound'
    · rw [persists.logs, holds.logs]
      simp
    · rw [persists.occurrences holds.keys, holds.occurrences]
      simp only [Option.toList_some, List.singleton_append, List.filter_cons]
      split
      · simp only [List.length_cons, Nat.add_assoc]
      · simp
  | fails here failed =>
    have rolled := persistInSavepoint_error failed
    obtain ⟨nonempty, status, -, -, bound⟩ := loop
    refine ⟨copy, ?_, ?_, bound, ?_, ?_, ?_⟩
    · exact holds.status
    · exact ⟨nonempty, status, fun h => absurd h (Nat.succ_ne_zero _), fun _ => rfl, bound⟩
    · exact rolled.2.1 ▸ holds.keys
    · exact rolled.1.trans holds.logs
    · exact (rolledBack_occurrences rolled).trans holds.occurrences
  | @completes logs index successCount failures now last =>
    have skips := bulkFinalStatus_skips loop.1 successCount failures.length
    refine { holds with copy := copy, status := ?_, loop := trivial, counted := holds.counted }
    · intro failed
      change bulkFinalStatus logs successCount failures.length = .failed at failed
      rw [failed] at skips
      cases skips

theorem CrashInvariant.next {t₀ : LogTables} {s t : CrashRun} {op : CrashOp}
    (holds : CrashInvariant t₀ s) (moved : crashMachine.step s op = some t) :
    CrashInvariant t₀ t := by
  have effect := crash_effect holds.copy moved
  have copy := effect.holds
  cases effect with
  | delivers => exact { holds with copy := copy, loop := trivial }
  | cutsOff => exact { holds with copy := copy, loop := trivial }
  | steps running _ effect => exact holds.effect running effect

theorem FreshInvariant.effect {s : CrashRun} (holds : FreshInvariant s) {exec : BulkExec}
    (running : s.exec = some exec) {outcome : BulkOutcome}
    (effect : BulkEffect s.job s.tables exec outcome)
    (fresh : exec = .started → skipsExecution s.job.status = false → s.job.successCount = 0) :
    FreshInvariant ⟨outcome.row, outcome.tables, some outcome.exec,
      outcome.persisted.toList ++ s.persisted⟩ := by
  have loop := holds.loop
  rw [running] at loop
  cases effect with
  | loads active =>
    have empty : s.persisted.length = 0 := holds.total.trans (fresh rfl active)
    exact { holds with loop := List.length_eq_zero_iff.mp empty }
  | skips => exact { holds with loop := trivial }
  | breaks => exact { holds with loop := trivial }
  | enters =>
    change s.persisted = [] at loop
    refine ⟨holds.total, holds.distinct, ?_⟩
    unfold enterLoop
    split
    · simp [LoopOwns, loop]
    · trivial
  | persists here persists =>
    obtain ⟨total, below⟩ := loop
    refine ⟨by simp [itemProgress, updateProgress, total], ?_, by simp [total], ?_⟩
    · rw [Option.toList_some, List.singleton_append, List.map_cons, List.nodup_cons]
      refine ⟨fun again => ?_, holds.distinct⟩
      obtain ⟨p, hp, same⟩ := List.mem_map.mp again
      have old := below p hp
      omega
    · rw [Option.toList_some, List.singleton_append, List.forall_mem_cons]
      refine ⟨Nat.lt_succ_self _, fun p hp => ?_⟩
      have old := below p hp
      omega
  | fails here rolled =>
    obtain ⟨total, below⟩ := loop
    refine ⟨by simp [itemProgress, updateProgress, total], holds.distinct, total, fun p hp => ?_⟩
    have old := below p hp
    omega
  | completes => exact ⟨holds.total, holds.distinct, trivial⟩

theorem FreshInvariant.next {t₀ : LogTables} {s t : CrashRun} {op : CrashOp}
    (valid : CrashInvariant t₀ s) (holds : FreshInvariant s) (fresh : FreshLoad s op)
    (moved : crashMachine.step s op = some t) : FreshInvariant t := by
  cases crash_effect valid.copy moved with
  | delivers => exact { holds with loop := trivial }
  | cutsOff => exact { holds with loop := trivial }
  | @steps exec event outcome running moved effect =>
    refine holds.effect running effect ?_
    rintro rfl active
    cases event with
    | load => exact fresh running rfl active
    | markRunning | item | complete => cases moved

theorem Surplus.effect {t₀ : LogTables} {s : CrashRun} (valid : CrashInvariant t₀ s)
    (holds : Surplus s) {exec : BulkExec} (running : s.exec = some exec) {outcome : BulkOutcome}
    (effect : BulkEffect s.job s.tables exec outcome) :
    Surplus ⟨outcome.row, outcome.tables, some outcome.exec,
      outcome.persisted.toList ++ s.persisted⟩ := by
  have counts := valid.loop
  rw [running] at counts
  cases effect with
  | loads | skips | breaks => exact ⟨holds.positive, by rintro _ _ _ _ _ ⟨⟩, holds.terminal⟩
  | enters now celeryTaskId =>
    refine ⟨holds.positive, ?_, fun terminal => by cases terminal⟩
    intro job logs index successCount failures entered
    unfold enterLoop at entered
    split at entered
    · cases entered
      exact holds.positive
    · cases entered
  | persists here persists =>
    have before := holds.loop _ _ _ _ _ running
    refine ⟨Nat.succ_pos _, ?_, fun terminal => ?_⟩
    · rintro _ _ _ _ _ ⟨⟩
      exact Nat.succ_lt_succ before
    · change s.job.status.active = false at terminal
      rw [counts.2.1] at terminal
      cases terminal
  | fails here rolled =>
    have before := holds.loop _ _ _ _ _ running
    refine ⟨holds.positive, ?_, fun terminal => ?_⟩
    · rintro _ _ _ _ _ ⟨⟩
      exact before
    · change s.job.status.active = false at terminal
      rw [counts.2.1] at terminal
      cases terminal
  | @completes logs index successCount failures now last =>
    have before := holds.loop _ _ _ _ _ running
    refine ⟨holds.positive, by rintro _ _ _ _ _ ⟨⟩, fun _ => ?_⟩
    have inside : 0 < index := (List.length_pos_iff.mpr counts.1).trans_le last
    change s.job.successCount < s.persisted.length
    rw [counts.2.2.2.1 inside]
    exact before

theorem Surplus.next {t₀ : LogTables} {s t : CrashRun} {op : CrashOp}
    (valid : CrashInvariant t₀ s) (holds : Surplus s)
    (moved : crashMachine.step s op = some t) : Surplus t := by
  cases crash_effect valid.copy moved with
  | delivers => exact ⟨holds.positive, by rintro _ _ _ _ _ ⟨⟩, holds.terminal⟩
  | cutsOff => exact ⟨holds.positive, by rintro _ _ _ _ _ ⟨⟩, holds.terminal⟩
  | steps running _ effect => exact holds.effect valid running effect

/-- A load that is not fresh leaves a surplus. -/
theorem surplus_of_stale {t₀ : LogTables} {s t : CrashRun} {op : CrashOp}
    (valid : CrashInvariant t₀ s) (stale : ¬ FreshLoad s op)
    (moved : crashMachine.step s op = some t) : Surplus t := by
  simp only [FreshLoad, Classical.not_imp] at stale
  obtain ⟨running, rfl, active, counted⟩ := stale
  simp only [crashMachine, CrashRun.next, running, Option.bind_some, bulkStep, bulkLoad, active,
    Bool.false_eq_true, if_false, Option.map_some, Option.some.injEq] at moved
  subst moved
  have bound := valid.counted
  refine ⟨?_, by rintro _ _ _ _ _ ⟨⟩, fun terminal => ?_⟩
  · change 0 < s.persisted.length
    omega
  · change s.job.status.active = false at terminal
    rw [skipsExecution_status active valid.status] at terminal
    cases terminal

/-- While loads are fresh no item is persisted twice; and a job that ended counts
its rows only if all loads were. -/
theorem once_per_item_iff_fresh (s₀ : CrashRun) (initial : s₀.Initial)
    (keys : (s₀.tables.errorGroups.map ErrorGroup.key).Nodup) (ops : List CrashOp) (s : CrashRun)
    (ran : crashMachine.run s₀ ops = some s) :
    (Meets crashMachine FreshLoad s₀ ops → OncePerItem s₀.tables s) ∧
    (s.job.status.active = false →
      (s.persisted.length = s.job.successCount ↔ Meets crashMachine FreshLoad s₀ ops)) := by
  have keep : ∀ u v op, CrashInvariant s₀.tables u → crashMachine.step u op = some v →
      CrashInvariant s₀.tables v := fun u v op valid moved => valid.next moved
  have start := crashInvariant_initial initial keys
  have valid := run_invariant keep start ran
  have once : Meets crashMachine FreshLoad s₀ ops → OncePerItem s₀.tables s := by
    intro meets
    have reached : Reach crashMachine FreshLoad (· = s₀) s := Reach.of_run (.start rfl) meets ran
    have both := reached.invariant (I := fun u => CrashInvariant s₀.tables u ∧ FreshInvariant u)
      (by rintro _ rfl; exact ⟨start, freshInvariant_initial initial⟩)
      fun u v op holds fresh moved => ⟨holds.1.next moved, holds.2.next holds.1 fresh moved⟩
    exact both.2.once both.1
  refine ⟨once, fun terminal => ⟨fun equal => ?_, fun meets => (once meets).2.2.2 terminal⟩⟩
  by_contra fails
  obtain ⟨before, op, after, u, v, -, ranBefore, stale, moved, ranAfter⟩ :=
    exists_of_not_meets ran fails
  have validU := run_invariant keep start ranBefore
  have both := run_invariant (I := fun w => CrashInvariant s₀.tables w ∧ Surplus w)
    (fun w x op holds moved => ⟨holds.1.next moved, holds.2.next holds.1 moved⟩)
    ⟨validU.next moved, surplus_of_stale validU stale moved⟩ ranAfter
  have more := both.2.terminal terminal
  omega

end Invariant

/-- A job of two items at level `info`. -/
def pairJob : CrashRun where
  job := newJob ['j']
    { jobType := .bulkLogIngest
      payload := { logs := some (List.replicate 2
        (minimalRequest .info { clock := 0, utcoffset := none })) }
      totalItems := 2
      createdBy := none
      idempotencyKey := none
      scopeKey := none }
  tables := {}

/-- A worker that dies after an item it could not persist, and the retry. -/
def failedItemThenRetry : List CrashOp :=
  [.deliver, .step .load, .step (.markRunning 0 none none),
    .step (.item 0 (some (.flushLog, [])) none), .cutOff,
    .deliver, .step .load, .step (.markRunning 0 none none), .step (.item 0 none none),
    .step (.item 0 none none), .step (.complete 0 none)]

theorem once_per_item_pairJob :
    letI := asciiPlatform
    ∃ s, crashMachine.run pairJob failedItemThenRetry = some s ∧ s.persisted.length = 2 ∧
      s.job.status = .completed ∧ OncePerItem {} s := by
  let _ := asciiPlatform
  obtain ⟨s, ran⟩ : ∃ s, crashMachine.run pairJob failedItemThenRetry = some s :=
    Option.isSome_iff_exists.mp (by decide)
  have counts : (crashMachine.run pairJob failedItemThenRetry).map
      (fun s => (s.persisted.length, s.job.status)) = some (2, .completed) := by decide
  rw [ran, Option.map_some, Option.some.injEq, Prod.mk.injEq] at counts
  exact ⟨s, ran, counts.1, counts.2, (once_per_item_iff_fresh pairJob ⟨⟨_, _, rfl⟩, rfl, rfl⟩
    List.nodup_nil failedItemThenRetry s ran).1 (by decide)⟩

/-- A worker that dies after it persisted the first item, and the retry. -/
theorem once_per_item_fails :
    ¬ ∀ s₀ ops s, s₀.Initial → (s₀.tables.errorGroups.map ErrorGroup.key).Nodup →
      (@crashMachine asciiPlatform).run s₀ ops = some s → OncePerItem s₀.tables s := by
  let _ := asciiPlatform
  intro once
  let ops : List CrashOp := [.deliver, .step .load, .step (.markRunning 0 none none),
    .step (.item 0 none none), .cutOff, .deliver, .step .load, .step (.markRunning 0 none none),
    .step (.item 0 none none)]
  obtain ⟨s, ran⟩ : ∃ s, crashMachine.run pairJob ops = some s :=
    Option.isSome_iff_exists.mp (by decide)
  have twice : (crashMachine.run pairJob ops).map (fun s => (s.rowsOf 0).length) = some 2 := by
    decide
  rw [ran, Option.map_some, Option.some.injEq] at twice
  have bound := (once pairJob ops s ⟨⟨_, _, rfl⟩, rfl, rfl⟩ List.nodup_nil ran).1 0
  omega

end LogLens
