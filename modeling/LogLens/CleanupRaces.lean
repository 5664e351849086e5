import LogLens.Cleanup
import LogLens.GroupBookkeeping
import Mathlib.Algebra.GroupWithZero.Nat
import Mathlib.Data.Finset.Card

/-! Cleanups that overlap with each other, with ingestions and with deletions of single logs.
A SELECT is a step, and so is a DELETE with its COMMIT: it takes the rows that are still there.
A retry is a task of its own. -/

namespace LogLens
open LabelledMachine

inductive CleanupPhase
  /-- Before a SELECT. -/
  | selecting
  /-- Before the DELETE of the ids that were selected. -/
  | deleting (ids : List Nat)
  /-- Nothing was selected, the sequence of the ids standing at the number. -/
  | finished (nextLogId : Nat)
  | failed
  deriving DecidableEq

def CleanupPhase.pending : CleanupPhase → List Nat
  | .deleting ids => ids
  | .selecting | .finished _ | .failed => []

/-- A DELETE: its task, the ids it was given and the rows it found. -/
structure CleanupRound (ι : Type) where
  task : ι
  ids : List Nat
  rows : List Log

structure CleanupRun (ι : Type) where
  log : LogRun := {}
  phase : ι → CleanupPhase := fun _ => .selecting
  deleted : ι → Nat := fun _ => 0
  rounds : List (CleanupRound ι) := []

inductive CleanupOp (ι : Type)
  | select (i : ι)
  | delete (i : ι)
  | fail (i : ι)
  | write (op : LogOp)

def LogTables.without (ids : List Nat) (t : LogTables) : LogTables :=
  { t with logs := t.logs.filter fun l => l.id ∉ ids }

def LogOp.isCleanup : LogOp → Bool
  | .cleanupBatch .. => true
  | .ingestLog .. | .persistItem .. | .deleteLog .. => false
  | .updateStatus .. | .updateAssignment .. => false

theorem LogOp.Deletes.request {op : LogOp} {t : LogTables} {log : Log} (deletes : op.Deletes t log)
    (quiet : op.isCleanup = false) : op = .deleteLog log.id none := by
  cases op with
  | deleteLog logId commitError =>
    obtain ⟨rfl, rfl⟩ := deletes
    rfl
  | cleanupBatch => cases quiet
  | ingestLog | persistItem | updateStatus | updateAssignment => exact deletes.elim

section Machine
variable {ι : Type} [DecidableEq ι] [Platform] (threshold : ι → Timestamp) (batchSize : Nat)

def CleanupRun.goto (s : CleanupRun ι) (i : ι) (phase : CleanupPhase) : CleanupRun ι :=
  { s with phase := Function.update s.phase i phase }

def CleanupRun.select (s : CleanupRun ι) (i : ι) : CleanupRun ι :=
  let ids := cleanupIds (threshold i) batchSize s.log.tables
  s.goto i (if ids.isEmpty then .finished s.log.tables.nextLogId else .deleting ids)

def CleanupRun.delete (s : CleanupRun ι) (i : ι) (ids : List Nat) : CleanupRun ι :=
  { s.goto i .selecting with
    log := { s.log with tables := s.log.tables.without ids }
    deleted := Function.update s.deleted i (s.deleted i + ids.length)
    rounds := ⟨i, ids, s.log.tables.logs.filter fun l => l.id ∈ ids⟩ :: s.rounds }

def cleanupMachine : Machine (CleanupRun ι) (CleanupOp ι) where
  step s
    | .select i => if s.phase i = .selecting then some (s.select threshold batchSize i) else none
    | .delete i =>
      match s.phase i with
      | .deleting ids => some (s.delete i ids)
      | .selecting | .finished _ | .failed => none
    | .fail i =>
      match s.phase i with
      | .selecting | .deleting _ => some (s.goto i .failed)
      | .finished _ | .failed => none
    | .write op => if op.isCleanup then none else some { s with log := s.log.apply op }

/-- What one step does. -/
inductive CleanupEffect (s : CleanupRun ι) : CleanupOp ι → CleanupRun ι → Prop
  | selects {i : ι} : s.phase i = .selecting →
    cleanupIds (threshold i) batchSize s.log.tables ≠ [] →
    CleanupEffect s (.select i)
      (s.goto i (.deleting (cleanupIds (threshold i) batchSize s.log.tables)))
  | ends {i : ι} : s.phase i = .selecting → cleanupIds (threshold i) batchSize s.log.tables = [] →
    CleanupEffect s (.select i) (s.goto i (.finished s.log.tables.nextLogId))
  | deletes {i : ι} {ids : List Nat} : s.phase i = .deleting ids →
    CleanupEffect s (.delete i) (s.delete i ids)
  | fails {i : ι} : CleanupEffect s (.fail i) (s.goto i .failed)
  | writes {op : LogOp} : op.isCleanup = false →
    CleanupEffect s (.write op) { s with log := s.log.apply op }

variable {threshold batchSize} {s t : CleanupRun ι} {op : CleanupOp ι}

theorem cleanup_effect (moved : (cleanupMachine threshold batchSize).step s op = some t) :
    CleanupEffect threshold batchSize s op t := by
  cases op with
  | select i =>
    simp only [cleanupMachine, Option.ite_none_right_eq_some, Option.some.injEq] at moved
    obtain ⟨standing, rfl⟩ := moved
    unfold CleanupRun.select
    dsimp only
    split
    · exact .ends standing (List.isEmpty_iff.mp ‹_›)
    · exact .selects standing fun none => by simp_all
  | delete i =>
    simp only [cleanupMachine] at moved
    split at moved
    · cases moved
      exact .deletes ‹_›
    all_goals cases moved
  | fail i =>
    simp only [cleanupMachine] at moved
    split at moved <;> cases moved <;> exact .fails
  | write op =>
    simp only [cleanupMachine, Option.ite_none_left_eq_some, Option.some.injEq] at moved
    obtain ⟨quiet, rfl⟩ := moved
    exact .writes (by simpa using quiet)

end Machine

section Alone
variable {ι : Type} [DecidableEq ι] [Platform] {threshold : ι → Timestamp} {batchSize : Nat}

theorem select_found {s : CleanupRun ι} {i : ι} {ids : List Nat} (standing : s.phase i = .selecting)
    (selected : cleanupIds (threshold i) batchSize s.log.tables = ids) (some : ids ≠ []) :
    (cleanupMachine threshold batchSize).step s (.select i) =
      .some (s.goto i (.deleting ids)) := by
  simp [cleanupMachine, standing, CleanupRun.select, selected, some]

theorem delete_step {s : CleanupRun ι} {i : ι} {ids : List Nat}
    (standing : s.phase i = .deleting ids) :
    (cleanupMachine threshold batchSize).step s (.delete i) = some (s.delete i ids) := by
  simp [cleanupMachine, standing]

end Alone

section Invariant
variable {ι : Type} [DecidableEq ι]

/-- Another task took the log with the id, or a request deleted it. -/
def RemovedElsewhere (ops : List (CleanupOp ι)) (s : CleanupRun ι) (i : ι) (id : Nat) : Prop :=
  (∃ r ∈ s.rounds, r.task ≠ i ∧ id ∈ r.rows.map Log.id) ∨ .write (.deleteLog id none) ∈ ops

/-- The ids of the logs a task has still to do with. -/
def CleanupRun.owed (threshold : ι → Timestamp) (s : CleanupRun ι) (i : ι) : Finset Nat :=
  ((s.log.tables.stale (threshold i)).map Log.id ++ (s.phase i).pending).toFinset

/-- The logs that a task's deletes took, and the ids it was late for. -/
def CleanupRun.took (s : CleanupRun ι) (i : ι) : List Log :=
  (s.rounds.filter fun r => r.task = i).flatMap (·.rows)

def CleanupRound.late (r : CleanupRound ι) : List Nat :=
  r.ids.filter fun id => id ∉ r.rows.map Log.id

def CleanupRun.late (s : CleanupRun ι) (i : ι) : List Nat :=
  (s.rounds.filter fun r => r.task = i).flatMap (·.late)

/-- Where the log of an id that a task selected is. -/
def Selected (threshold : ι → Timestamp) (ops : List (CleanupOp ι)) (s : CleanupRun ι) (i : ι)
    (id : Nat) : Prop :=
  (∃ log ∈ s.log.tables.logs, log.id = id ∧ log.timestamp < threshold i) ∨
    id ∉ s.log.tables.logs.map Log.id ∧ id < s.log.tables.nextLogId ∧ RemovedElsewhere ops s i id

/-- What a round says about the logs. -/
structure RoundHolds (threshold : ι → Timestamp) (ops : List (CleanupOp ι)) (s : CleanupRun ι)
    (r : CleanupRound ι) : Prop where
  distinct : r.ids.Nodup
  within : r.rows.map Log.id ⊆ r.ids
  rows : ∀ row ∈ r.rows, row.timestamp < threshold r.task ∧ row.id < s.log.tables.nextLogId ∧
    row.id ∉ s.log.tables.logs.map Log.id
  late : ∀ id ∈ r.late, RemovedElsewhere ops s r.task id

structure CleanupHolds [Platform] (threshold : ι → Timestamp) (batchSize : Nat)
    (ops : List (CleanupOp ι)) (s : CleanupRun ι) : Prop where
  book : Bookkeeping s.log
  inserted : RowsInserted s.log
  accounted : ∀ p ∈ s.log.ingested, p.2 ∈ s.log.tables.logs ∨ (∃ r ∈ s.rounds, p.2 ∈ r.rows) ∨
    .write (.deleteLog p.2.id none) ∈ ops
  rounds : ∀ r ∈ s.rounds, RoundHolds threshold ops s r
  once : (s.rounds.flatMap fun r => r.rows.map Log.id).Nodup
  counted : ∀ i, s.deleted i = ((s.rounds.filter fun r => r.task = i).map (·.ids.length)).sum
  pending : ∀ i ids, s.phase i = .deleting ids → ids ≠ [] ∧ ids.Nodup ∧
    ∀ id ∈ ids, Selected threshold ops s i id
  ended : ∀ i bound, s.phase i = .finished bound → bound ≤ s.log.tables.nextLogId ∧
    (1 ≤ batchSize → ∀ log ∈ s.log.tables.logs, log.timestamp < threshold i → bound ≤ log.id)
  paid : ∀ i, (s.rounds.filter fun r => r.task = i).length + (s.owed threshold i).card ≤
    (s.log.ingested.filter fun p => p.2.timestamp < threshold i).length

theorem cleanupHolds_initial [Platform] (threshold : ι → Timestamp) (batchSize : Nat) :
    CleanupHolds threshold batchSize [] ({} : CleanupRun ι) where
  book := bookkeeping_initial
  inserted := ⟨List.Sublist.refl _, List.nodup_nil⟩
  accounted := by simp
  rounds := by simp
  once := List.nodup_nil
  counted := by simp
  pending := by simp
  ended := by simp
  paid i := by simp [CleanupRun.owed, LogTables.stale, CleanupPhase.pending]

end Invariant

section Steps
variable {ι : Type} [DecidableEq ι] {threshold : ι → Timestamp} {batchSize : Nat}
  {ops : List (CleanupOp ι)} {s t : CleanupRun ι} {op : CleanupOp ι}

/-- What a step leaves of the logs, and where it puts the others. -/
structure CleanupFollows (s : CleanupRun ι) (op : CleanupOp ι) (t : CleanupRun ι) : Prop where
  rounds : s.rounds ⊆ t.rounds
  next : s.log.tables.nextLogId ≤ t.log.tables.nextLogId
  logs : ∀ l ∈ t.log.tables.logs, l ∈ s.log.tables.logs ∨ s.log.tables.nextLogId ≤ l.id
  lost : ∀ l ∈ s.log.tables.logs, l ∈ t.log.tables.logs ∨
    (∃ r ∈ t.rounds, op = .delete r.task ∧ l ∈ r.rows) ∨ op = .write (.deleteLog l.id none)
  ingested : ∀ p ∈ t.log.ingested, p ∈ s.log.ingested ∨ p.2 ∈ t.log.tables.logs

theorem follows_goto (s : CleanupRun ι) (op : CleanupOp ι) (i : ι) (phase : CleanupPhase) :
    CleanupFollows s op (s.goto i phase) :=
  ⟨List.Subset.refl _, le_rfl, fun _ here => .inl here, fun _ here => .inl here,
    fun _ here => .inl here⟩

theorem follows_delete (s : CleanupRun ι) (i : ι) (ids : List Nat) :
    CleanupFollows s (.delete i) (s.delete i ids) where
  rounds := List.subset_cons_self _ _
  next := le_rfl
  logs l here := .inl (List.mem_of_mem_filter here)
  lost l here := by
    by_cases taken : l.id ∈ ids
    · exact .inr (.inl ⟨_, List.mem_cons_self, rfl,
        List.mem_filter.mpr ⟨here, decide_eq_true taken⟩⟩)
    · exact .inl (List.mem_filter.mpr ⟨here, decide_eq_true taken⟩)
  ingested _ here := .inl here

variable [Platform]

omit [DecidableEq ι] [Platform] in
theorem WriteRows.follows {op : LogOp} {log : LogRun} (rows : WriteRows op s.log log)
    (quiet : op.isCleanup = false) : CleanupFollows s (.write op) { s with log := log } := by
  cases rows with
  | adds _ logs id next =>
    refine ⟨List.Subset.refl _, next.le, fun l here => ?_, fun l here => .inl ?_, fun p here => ?_⟩
    · rw [logs, List.mem_append, List.mem_singleton] at here
      exact here.imp_right fun same => by rw [same, id]
    · rw [logs]
      exact List.mem_append_left _ here
    · rcases List.mem_cons.mp here with rfl | old
      · exact .inr (logs ▸ List.mem_append_right _ (List.mem_singleton.mpr rfl))
      · exact .inl old
  | keeps logs next lost =>
    exact ⟨List.Subset.refl _, next, fun l here => .inl (logs.subset here),
      fun l here => (lost l here).imp_right fun deleted =>
        .inr (congrArg CleanupOp.write (deleted.request quiet)),
      fun _ here => .inl here⟩

theorem CleanupEffect.follows (effect : CleanupEffect threshold batchSize s op t) :
    CleanupFollows s op t := by
  cases effect with
  | selects | ends | fails => exact follows_goto s _ _ _
  | deletes => exact follows_delete s _ _
  | writes quiet => exact (apply_writeRows s.log _).follows quiet

omit [Platform] [DecidableEq ι] in
theorem RemovedElsewhere.next {i : ι} {id : Nat} (removed : RemovedElsewhere ops s i id)
    (follows : CleanupFollows s op t) : RemovedElsewhere (ops ++ [op]) t i id :=
  removed.imp (fun ⟨r, hr, other⟩ => ⟨r, follows.rounds hr, other⟩)
    fun requested => List.mem_append_left _ requested

omit [Platform] [DecidableEq ι] in
/-- An id that no log has, from below the sequence, stays without one. -/
theorem CleanupFollows.absent (follows : CleanupFollows s op t) {id : Nat}
    (absent : id ∉ s.log.tables.logs.map Log.id) (below : id < s.log.tables.nextLogId) :
    id ∉ t.log.tables.logs.map Log.id := by
  intro here
  obtain ⟨l, hl, rfl⟩ := List.mem_map.mp here
  rcases follows.logs l hl with old | new
  · exact absent (List.mem_map_of_mem old)
  · exact absurd below (not_lt.mpr new)

omit [DecidableEq ι] [Platform] in
theorem RoundHolds.next {r : CleanupRound ι} (holds : RoundHolds threshold ops s r)
    (follows : CleanupFollows s op t) : RoundHolds threshold (ops ++ [op]) t r where
  distinct := holds.distinct
  within := holds.within
  rows row hr := by
    obtain ⟨stale, below, absent⟩ := holds.rows row hr
    exact ⟨stale, below.trans_le follows.next, follows.absent absent below⟩
  late id hid := (holds.late id hid).next follows

/-- A log that a task selected stays until that task deletes it, or is removed elsewhere. -/
theorem Selected.next {i : ι} {id : Nat} (holds : CleanupHolds threshold batchSize ops s)
    (selected : Selected threshold ops s i id)
    (follows : CleanupFollows s op t) (other : op ≠ .delete i) :
    Selected threshold (ops ++ [op]) t i id := by
  rcases selected with ⟨log, here, rfl, stale⟩ | ⟨absent, below, removed⟩
  · have below : log.id < s.log.tables.nextLogId := by
      obtain ⟨p, hp, rfl⟩ := holds.book.kept log here
      exact holds.book.logFresh p hp
    by_cases stays : log ∈ t.log.tables.logs
    · exact .inl ⟨log, stays, rfl, stale⟩
    · refine .inr ⟨fun present => ?_, below.trans_le follows.next, ?_⟩
      · obtain ⟨l, hl, same⟩ := List.mem_map.mp present
        rcases follows.logs l hl with old | new
        · exact stays (List.inj_on_of_nodup_map holds.inserted.keys old here same ▸ hl)
        · rw [same] at new
          exact absurd below (not_lt.mpr new)
      · rcases follows.lost log here with kept | ⟨r, hr, rfl, taken⟩ | rfl
        · exact absurd kept stays
        · exact .inl ⟨r, hr, fun same => other (same ▸ rfl), List.mem_map_of_mem taken⟩
        · exact .inr (List.mem_append_right _ (List.mem_singleton.mpr rfl))
  · exact .inr ⟨follows.absent absent below, below.trans_le follows.next, removed.next follows⟩

theorem CleanupHolds.tables (holds : CleanupHolds threshold batchSize ops s)
    (effect : CleanupEffect threshold batchSize s op t) :
    Bookkeeping t.log ∧ RowsInserted t.log := by
  cases effect with
  | selects | ends | fails => exact ⟨holds.book, holds.inserted⟩
  | deletes =>
    exact ⟨holds.book.shrink (fun _ here => List.mem_of_mem_filter here) rfl le_rfl le_rfl,
      List.filter_sublist.trans holds.inserted.rows, holds.inserted.ids⟩
  | @writes op =>
    exact ⟨holds.book.effect (apply_effect s.log op),
      holds.inserted.write holds.book (apply_writeRows s.log op)⟩

theorem CleanupHolds.accounted_next (holds : CleanupHolds threshold batchSize ops s)
    (follows : CleanupFollows s op t) : ∀ p ∈ t.log.ingested, p.2 ∈ t.log.tables.logs ∨
      (∃ r ∈ t.rounds, p.2 ∈ r.rows) ∨ .write (.deleteLog p.2.id none) ∈ ops ++ [op] := by
  intro p here
  rcases follows.ingested p here with old | new
  · rcases holds.accounted p old with present | ⟨r, hr, taken⟩ | requested
    · rcases follows.lost p.2 present with kept | ⟨r, hr, -, taken⟩ | rfl
      · exact .inl kept
      · exact .inr (.inl ⟨r, hr, taken⟩)
      · exact .inr (.inr (List.mem_append_right _ (List.mem_singleton.mpr rfl)))
    · exact .inr (.inl ⟨r, follows.rounds hr, taken⟩)
    · exact .inr (.inr (List.mem_append_left _ requested))
  · exact .inl new

/-- The rows that a DELETE finds are old, and the ids that it finds no row for were taken before. -/
theorem CleanupHolds.newRound (holds : CleanupHolds threshold batchSize ops s) {i : ι}
    {ids : List Nat} (standing : s.phase i = .deleting ids) :
    RoundHolds threshold (ops ++ [.delete i]) (s.delete i ids)
      ⟨i, ids, s.log.tables.logs.filter fun l => l.id ∈ ids⟩ := by
  obtain ⟨-, distinct, selected⟩ := holds.pending i ids standing
  have follows := follows_delete s i ids
  refine ⟨distinct, fun id here => ?_, fun row here => ?_, fun id late => ?_⟩
  · obtain ⟨row, hr, rfl⟩ := List.mem_map.mp here
    exact of_decide_eq_true (List.mem_filter.mp hr).2
  · obtain ⟨present, listed⟩ := List.mem_filter.mp here
    rw [decide_eq_true_eq] at listed
    obtain ⟨p, hp, rfl⟩ := holds.book.kept row present
    refine ⟨?_, holds.book.logFresh p hp, fun still => ?_⟩
    · rcases selected p.2.id listed with ⟨log, there, same, stale⟩ | ⟨absent, -, -⟩
      · exact List.inj_on_of_nodup_map holds.inserted.keys there present same ▸ stale
      · exact absurd (List.mem_map_of_mem present) absent
    · obtain ⟨l, hl, same⟩ := List.mem_map.mp still
      obtain ⟨-, left⟩ := List.mem_filter.mp hl
      rw [decide_eq_true_eq, same] at left
      exact left listed
  · obtain ⟨listed, missing⟩ := List.mem_filter.mp late
    rw [decide_eq_true_eq] at missing
    rcases selected id listed with ⟨log, there, rfl, -⟩ | ⟨-, -, removed⟩
    · have found : log ∈ s.log.tables.logs.filter fun l => l.id ∈ ids :=
        List.mem_filter.mpr ⟨there, decide_eq_true listed⟩
      exact absurd (List.mem_map_of_mem found) missing
    · exact removed.next follows

theorem CleanupHolds.rounds_next (holds : CleanupHolds threshold batchSize ops s)
    (effect : CleanupEffect threshold batchSize s op t) :
    ∀ r ∈ t.rounds, RoundHolds threshold (ops ++ [op]) t r := by
  intro r hr
  by_cases old : r ∈ s.rounds
  · exact (holds.rounds r old).next effect.follows
  · cases effect with
    | selects | ends | fails | writes => exact absurd hr old
    | deletes standing =>
      obtain rfl := (List.mem_cons.mp hr).resolve_right old
      exact holds.newRound standing

theorem CleanupHolds.once_next (holds : CleanupHolds threshold batchSize ops s)
    (effect : CleanupEffect threshold batchSize s op t) :
    (t.rounds.flatMap fun r => r.rows.map Log.id).Nodup := by
  cases effect with
  | selects | ends | fails | writes => exact holds.once
  | @deletes i ids standing =>
    change ((s.log.tables.logs.filter fun l => l.id ∈ ids).map Log.id ++ _).Nodup
    refine List.nodup_append'.mpr ⟨(List.filter_sublist.map Log.id).nodup holds.inserted.keys,
      holds.once, ?_⟩
    intro id here taken
    obtain ⟨r, hr, old⟩ := List.mem_flatMap.mp taken
    obtain ⟨row, hrow, rfl⟩ := List.mem_map.mp old
    exact ((holds.rounds r hr).rows row hrow).2.2 ((List.filter_sublist.map Log.id).subset here)

theorem CleanupHolds.counted_next (holds : CleanupHolds threshold batchSize ops s)
    (effect : CleanupEffect threshold batchSize s op t) (j : ι) :
    t.deleted j = ((t.rounds.filter fun r => r.task = j).map (·.ids.length)).sum := by
  cases effect with
  | selects | ends | fails | writes => exact holds.counted j
  | @deletes i ids =>
    simp only [CleanupRun.delete]
    by_cases own : i = j
    · subst own
      rw [Function.update_self, List.filter_cons_of_pos (by simp), List.map_cons, List.sum_cons,
        ← holds.counted, Nat.add_comm]
    · rw [Function.update_of_ne (Ne.symm own), List.filter_cons_of_neg (by simpa using own),
        holds.counted]

theorem CleanupHolds.pending_next (holds : CleanupHolds threshold batchSize ops s)
    (effect : CleanupEffect threshold batchSize s op t) (j : ι) (ids : List Nat)
    (standing : t.phase j = .deleting ids) :
    ids ≠ [] ∧ ids.Nodup ∧ ∀ id ∈ ids, Selected threshold (ops ++ [op]) t j id := by
  have old (before : s.phase j = .deleting ids) (other : op ≠ .delete j) :
      ids ≠ [] ∧ ids.Nodup ∧ ∀ id ∈ ids, Selected threshold (ops ++ [op]) t j id := by
    obtain ⟨some, distinct, selected⟩ := holds.pending j ids before
    exact ⟨some, distinct, fun id here => (selected id here).next holds effect.follows other⟩
  cases effect with
  | writes => exact old standing (by simp)
  | @selects i _ found =>
    by_cases own : j = i
    · subst own
      simp only [CleanupRun.goto, Function.update_self, CleanupPhase.deleting.injEq] at standing
      subst standing
      refine ⟨found, ?_, fun id here => .inl ?_⟩
      · have all : ((s.log.tables.stale (threshold j)).map Log.id).Nodup :=
          (List.filter_sublist.map Log.id).nodup holds.inserted.keys
        exact (List.take_sublist _ _).nodup ((List.mergeSort_perm _ _).nodup_iff.mpr all)
      · obtain ⟨log, stale, same⟩ := cleanupIds_stale here
        obtain ⟨present, before⟩ := List.mem_filter.mp stale
        exact ⟨log, present, same, of_decide_eq_true before⟩
    · exact old (by simpa [CleanupRun.goto, Function.update_of_ne own] using standing) (by simp)
  | @ends i =>
    by_cases own : j = i
    · subst own
      simp [CleanupRun.goto] at standing
    · exact old (by simpa [CleanupRun.goto, Function.update_of_ne own] using standing) (by simp)
  | @fails i =>
    by_cases own : j = i
    · subst own
      simp [CleanupRun.goto] at standing
    · exact old (by simpa [CleanupRun.goto, Function.update_of_ne own] using standing) (by simp)
  | @deletes i =>
    by_cases own : j = i
    · subst own
      simp [CleanupRun.delete, CleanupRun.goto] at standing
    · exact old (by simpa [CleanupRun.delete, CleanupRun.goto, Function.update_of_ne own]
        using standing) fun same => own (CleanupOp.delete.inj same).symm

theorem CleanupHolds.ended_next (holds : CleanupHolds threshold batchSize ops s)
    (effect : CleanupEffect threshold batchSize s op t) (j : ι) (bound : Nat)
    (standing : t.phase j = .finished bound) : bound ≤ t.log.tables.nextLogId ∧
      (1 ≤ batchSize →
        ∀ log ∈ t.log.tables.logs, log.timestamp < threshold j → bound ≤ log.id) := by
  have follows := effect.follows
  have old (before : s.phase j = .finished bound) : bound ≤ t.log.tables.nextLogId ∧
      (1 ≤ batchSize →
        ∀ log ∈ t.log.tables.logs, log.timestamp < threshold j → bound ≤ log.id) := by
    obtain ⟨below, later⟩ := holds.ended j bound before
    refine ⟨below.trans follows.next, fun positive log here stale => ?_⟩
    exact (follows.logs log here).elim (fun present => later positive log present stale) below.trans
  cases effect with
  | writes => exact old standing
  | @selects i =>
    by_cases own : j = i
    · subst own
      simp [CleanupRun.goto] at standing
    · exact old (by simpa [CleanupRun.goto, Function.update_of_ne own] using standing)
  | @ends i _ none =>
    by_cases own : j = i
    · subst own
      simp only [CleanupRun.goto, Function.update_self, CleanupPhase.finished.injEq] at standing
      subst standing
      refine ⟨le_rfl, fun positive log here stale => ?_⟩
      have clear := (cleanupIds_empty_iff positive).mp (List.isEmpty_iff.mpr none)
      have present : log ∈ s.log.tables.stale (threshold j) :=
        List.mem_filter.mpr ⟨here, decide_eq_true stale⟩
      rw [clear] at present
      cases present
    · exact old (by simpa [CleanupRun.goto, Function.update_of_ne own] using standing)
  | @fails i =>
    by_cases own : j = i
    · subst own
      simp [CleanupRun.goto] at standing
    · exact old (by simpa [CleanupRun.goto, Function.update_of_ne own] using standing)
  | @deletes i =>
    by_cases own : j = i
    · subst own
      simp [CleanupRun.delete, CleanupRun.goto] at standing
    · exact old (by simpa [CleanupRun.delete, CleanupRun.goto, Function.update_of_ne own]
        using standing)

omit [Platform] [DecidableEq ι] in
theorem mem_owed {i : ι} {id : Nat} : id ∈ s.owed threshold i ↔
    (∃ l ∈ s.log.tables.logs, l.timestamp < threshold i ∧ l.id = id) ∨
      id ∈ (s.phase i).pending := by
  simp [CleanupRun.owed, LogTables.stale, and_assoc]

omit [Platform] [DecidableEq ι] in
theorem owed_mono {i : ι}
    (logs : ∀ l ∈ t.log.tables.logs, l.timestamp < threshold i → l ∈ s.log.tables.logs)
    (pending : ∀ id ∈ (t.phase i).pending, id ∈ s.owed threshold i) :
    t.owed threshold i ⊆ s.owed threshold i := by
  intro id here
  rcases mem_owed.mp here with ⟨l, hl, stale, same⟩ | waiting
  · exact mem_owed.mpr (.inl ⟨l, logs l hl stale, stale, same⟩)
  · exact pending id waiting

/-- A DELETE settles the ids it was given. -/
theorem CleanupHolds.owed_delete (holds : CleanupHolds threshold batchSize ops s) {i : ι}
    {ids : List Nat} (standing : s.phase i = .deleting ids) :
    1 + ((s.delete i ids).owed threshold i).card ≤ (s.owed threshold i).card := by
  obtain ⟨some, distinct, -⟩ := holds.pending i ids standing
  have size : 1 ≤ ids.toFinset.card := by
    rw [List.toFinset_card_of_nodup distinct]
    exact List.length_pos_iff.mpr some
  have apart : Disjoint ids.toFinset ((s.delete i ids).owed threshold i) := by
    refine Finset.disjoint_left.mpr fun id listed left => ?_
    rcases mem_owed.mp left with ⟨l, hl, -, rfl⟩ | waiting
    · exact of_decide_eq_true (List.mem_filter.mp hl).2 (List.mem_toFinset.mp listed)
    · simp [CleanupRun.delete, CleanupRun.goto, CleanupPhase.pending] at waiting
  have within : ids.toFinset ∪ (s.delete i ids).owed threshold i ⊆ s.owed threshold i := by
    refine Finset.union_subset (fun id listed => mem_owed.mpr (.inr ?_)) (owed_mono ?_ ?_)
    · rw [standing]
      exact List.mem_toFinset.mp listed
    · exact fun l hl _ => List.mem_of_mem_filter hl
    · simp [CleanupRun.delete, CleanupRun.goto, CleanupPhase.pending]
  have total := Finset.card_le_card within
  rw [Finset.card_union_of_disjoint apart] at total
  omega

omit [Platform] in
theorem owed_goto {i j : ι} {phase : CleanupPhase}
    (pending : ∀ id ∈ phase.pending, id ∈ s.owed threshold i) :
    (s.goto i phase).owed threshold j ⊆ s.owed threshold j := by
  refine owed_mono (fun l hl _ => hl) fun id waiting => ?_
  by_cases own : j = i
  · subst own
    simp only [CleanupRun.goto, Function.update_self] at waiting
    exact pending id waiting
  · simp only [CleanupRun.goto, Function.update_of_ne own] at waiting
    exact mem_owed.mpr (.inr waiting)

/-- The old logs ever ingested. -/
def CleanupRun.old (threshold : ι → Timestamp) (s : CleanupRun ι) (i : ι) :
    List (LogIngestRequest × Log) :=
  s.log.ingested.filter fun p => p.2.timestamp < threshold i

omit [Platform] [DecidableEq ι] in
/-- Only an old log that is ingested adds to what there is to do. -/
theorem WriteRows.owed_le {op : LogOp} {log : LogRun} (rows : WriteRows op s.log log) (j : ι) :
    (({ s with log := log } : CleanupRun ι).owed threshold j).card + (s.old threshold j).length ≤
      (s.owed threshold j).card +
        (({ s with log := log } : CleanupRun ι).old threshold j).length := by
  cases rows with
  | @adds payload new t _ logs id next =>
    by_cases stale : new.timestamp < threshold j
    · have within : ({ s with log := ⟨t, (payload, new) :: s.log.ingested⟩ } :
          CleanupRun ι).owed threshold j ⊆ insert new.id (s.owed threshold j) := by
        intro id here
        rw [Finset.mem_insert]
        rcases mem_owed.mp here with ⟨l, hl, before, same⟩ | waiting
        · rcases List.mem_append.mp (logs ▸ hl) with old | added
          · exact .inr (mem_owed.mpr (.inl ⟨l, old, before, same⟩))
          · exact .inl (List.mem_singleton.mp added ▸ same.symm)
        · exact .inr (mem_owed.mpr (.inr waiting))
      have more := (Finset.card_le_card within).trans (Finset.card_insert_le _ _)
      simp only [CleanupRun.old]
      rw [List.filter_cons, if_pos (decide_eq_true stale), List.length_cons]
      omega
    · have within : ({ s with log := ⟨t, (payload, new) :: s.log.ingested⟩ } :
          CleanupRun ι).owed threshold j ⊆ s.owed threshold j := by
        refine owed_mono (fun l hl before => ?_) fun id waiting => mem_owed.mpr (.inr waiting)
        rcases List.mem_append.mp (logs ▸ hl) with old | added
        · exact old
        · exact absurd (List.mem_singleton.mp added ▸ before) stale
      have fewer := Finset.card_le_card within
      simp only [CleanupRun.old]
      rw [List.filter_cons, if_neg (by simpa using stale)]
      omega
  | @keeps t logs next lost =>
    have within : ({ s with log := ⟨t, s.log.ingested⟩ } : CleanupRun ι).owed threshold j ⊆
        s.owed threshold j :=
      owed_mono (fun l hl _ => logs.subset hl) fun id waiting => mem_owed.mpr (.inr waiting)
    have fewer := Finset.card_le_card within
    simp only [CleanupRun.old]
    omega

theorem CleanupHolds.paid_next (holds : CleanupHolds threshold batchSize ops s)
    (effect : CleanupEffect threshold batchSize s op t) (j : ι) :
    (t.rounds.filter fun r => r.task = j).length + (t.owed threshold j).card ≤
      (t.old threshold j).length := by
  have paid := holds.paid j
  cases effect with
  | @selects i standing =>
    have within : (s.goto i (.deleting (cleanupIds (threshold i) batchSize
        s.log.tables))).owed threshold j ⊆ s.owed threshold j := by
      refine owed_goto fun id selected => ?_
      obtain ⟨l, stale, same⟩ := cleanupIds_stale selected
      obtain ⟨present, before⟩ := List.mem_filter.mp stale
      exact mem_owed.mpr (.inl ⟨l, present, of_decide_eq_true before, same⟩)
    exact (Nat.add_le_add_left (Finset.card_le_card within) _).trans paid
  | @ends i =>
    have within : (s.goto i (.finished s.log.tables.nextLogId)).owed threshold j ⊆
        s.owed threshold j := owed_goto fun id none => by cases none
    exact (Nat.add_le_add_left (Finset.card_le_card within) _).trans paid
  | @fails i =>
    have within : (s.goto i .failed).owed threshold j ⊆ s.owed threshold j :=
      owed_goto fun id none => by cases none
    exact (Nat.add_le_add_left (Finset.card_le_card within) _).trans paid
  | @deletes i ids standing =>
    by_cases own : i = j
    · subst own
      have settled := holds.owed_delete standing
      change ((_ :: s.rounds).filter fun r => r.task = i).length + _ ≤ _
      rw [List.filter_cons_of_pos (by simp), List.length_cons]
      change _ ≤ (s.old threshold i).length
      change _ ≤ (s.old threshold i).length at paid
      omega
    · have within : (s.delete i ids).owed threshold j ⊆ s.owed threshold j := by
        refine owed_mono (fun l hl _ => List.mem_of_mem_filter hl) fun id waiting => ?_
        simp only [CleanupRun.delete, CleanupRun.goto,
          Function.update_of_ne (Ne.symm own)] at waiting
        exact mem_owed.mpr (.inr waiting)
      have fewer := Finset.card_le_card within
      change ((_ :: s.rounds).filter fun r => r.task = j).length + _ ≤ _
      rw [List.filter_cons_of_neg (by simpa using own)]
      change _ ≤ (s.old threshold j).length
      change _ ≤ (s.old threshold j).length at paid
      omega
  | @writes op quiet =>
    have more : (CleanupRun.owed threshold { s with log := s.log.apply op } j).card +
        (s.old threshold j).length ≤ _ := (apply_writeRows s.log _).owed_le j
    change (s.rounds.filter fun r => r.task = j).length + _ ≤ _
    change _ ≤ (s.old threshold j).length at paid
    omega

theorem CleanupHolds.next (holds : CleanupHolds threshold batchSize ops s)
    (effect : CleanupEffect threshold batchSize s op t) :
    CleanupHolds threshold batchSize (ops ++ [op]) t where
  book := (holds.tables effect).1
  inserted := (holds.tables effect).2
  accounted := holds.accounted_next effect.follows
  rounds := holds.rounds_next effect
  once := holds.once_next effect
  counted := holds.counted_next effect
  pending := holds.pending_next effect
  ended := holds.ended_next effect
  paid := holds.paid_next effect

omit [DecidableEq ι] [Platform] in
/-- The ids of a round are those of the rows it took and those it was late for. -/
theorem RoundHolds.length_ids {r : CleanupRound ι} (holds : RoundHolds threshold ops s r)
    (once : (r.rows.map Log.id).Nodup) : r.ids.length = r.rows.length + r.late.length := by
  have found : (r.ids.filter fun id => id ∈ r.rows.map Log.id).Perm (r.rows.map Log.id) := by
    refine (List.perm_ext_iff_of_nodup (List.filter_sublist.nodup holds.distinct) once).mpr ?_
    intro id
    rw [List.mem_filter, decide_eq_true_eq]
    exact and_iff_right_of_imp fun here => holds.within here
  have both := List.length_eq_length_filter_add (l := r.ids) fun id => id ∈ r.rows.map Log.id
  rw [found.length_eq, List.length_map] at both
  rw [both, CleanupRound.late]
  simp only [decide_not]

theorem CleanupHolds.deleted_eq (holds : CleanupHolds threshold batchSize ops s) (i : ι) :
    s.deleted i = (s.took i).length + (s.late i).length := by
  have split (rounds : List (CleanupRound ι))
      (each : ∀ r ∈ rounds, r.ids.length = r.rows.length + r.late.length) :
      (rounds.map (·.ids.length)).sum =
        (rounds.flatMap (·.rows)).length + (rounds.flatMap (·.late)).length := by
    induction rounds with
    | nil => rfl
    | cons r rest ih =>
      rw [List.forall_mem_cons] at each
      rw [List.map_cons, List.sum_cons, each.1, ih each.2, List.flatMap_cons, List.flatMap_cons,
        List.length_append, List.length_append]
      omega
  rw [holds.counted, CleanupRun.took, CleanupRun.late]
  refine split _ fun r hr => ?_
  have member := List.mem_of_mem_filter hr
  exact (holds.rounds r member).length_ids ((List.nodup_flatMap.mp holds.once).1 r member)

end Steps

section Claim
variable {ι : Type} [DecidableEq ι] [Platform]

/-- However cleanups overlap: every log ever ingested is there, or was deleted by a request, or was
taken by one cleanup, once, being old; a cleanup counts the logs it took and those another took
while it was about to; when it ends no old log from before is left; and it never takes more rounds
than there were old logs. -/
theorem cleanup_races (threshold : ι → Timestamp) (batchSize : Nat)
    (s : CleanupRun ι) (ops : List (CleanupOp ι))
    (ran : (cleanupMachine threshold batchSize).run {} ops = some s) :
    (∀ p ∈ s.log.ingested, p.2 ∈ s.log.tables.logs ∨
      (∃ i, p.2 ∈ s.took i ∧ p.2.timestamp < threshold i) ∨
      .write (.deleteLog p.2.id none) ∈ ops) ∧
    (s.rounds.flatMap fun r => r.rows.map Log.id).Nodup ∧
    (∀ i, s.deleted i = (s.took i).length + (s.late i).length ∧
      ∀ id ∈ s.late i, (∃ j, j ≠ i ∧ id ∈ (s.took j).map Log.id) ∨
        .write (.deleteLog id none) ∈ ops) ∧
    (1 ≤ batchSize → ∀ i bound, s.phase i = .finished bound → ∀ log ∈ s.log.tables.logs,
      log.timestamp < threshold i → bound ≤ log.id) ∧
    ∀ i, (s.rounds.filter fun r => r.task = i).length ≤ (s.old threshold i).length := by
  have holds : CleanupHolds threshold batchSize ops s :=
    run_induction (P := fun ops s => CleanupHolds threshold batchSize ops s)
      (cleanupHolds_initial threshold batchSize)
      (fun _ _ _ _ _ holds moved => holds.next (cleanup_effect moved)) ran
  have took {r : CleanupRound ι} {log : Log} (hr : r ∈ s.rounds) (here : log ∈ r.rows) :
      log ∈ s.took r.task :=
    List.mem_flatMap.mpr ⟨r, List.mem_filter.mpr ⟨hr, decide_eq_true rfl⟩, here⟩
  refine ⟨fun p ingested => ?_, holds.once, fun i => ⟨holds.deleted_eq i, fun id late => ?_⟩,
    fun positive i bound ended => (holds.ended i bound ended).2 positive, fun i => ?_⟩
  · refine (holds.accounted p ingested).imp_right (Or.imp_left ?_)
    rintro ⟨r, hr, taken⟩
    exact ⟨r.task, took hr taken, ((holds.rounds r hr).rows p.2 taken).1⟩
  · obtain ⟨r, hr, missing⟩ := List.mem_flatMap.mp late
    obtain ⟨member, own⟩ := List.mem_filter.mp hr
    rw [decide_eq_true_eq] at own
    refine ((holds.rounds r member).late id missing).imp_left ?_
    rintro ⟨r', hr', other, taken⟩
    obtain ⟨row, hrow, rfl⟩ := List.mem_map.mp taken
    exact ⟨r'.task, own ▸ other, List.mem_map_of_mem (took hr' hrow)⟩
  · exact (Nat.le_add_right _ _).trans (holds.paid i)

end Claim

section Sample

/-- Two old logs. -/
def twoOld : List LogOp :=
  [.ingestLog 0 none none (minimalRequest .info { clock := 2, utcoffset := none }),
    .ingestLog 0 none none (minimalRequest .info { clock := 7, utcoffset := none })]

/-- Two cleanups select both logs before either deletes them. -/
def bothSelect : List (CleanupOp Bool) :=
  twoOld.map .write ++ [.select false, .select true, .delete false, .delete true]

/-- Both count two logs, and the second took none. -/
theorem cleanup_races_bothSelect :
    letI := asciiPlatform
    ∃ s, (cleanupMachine (fun _ => 8) 10).run {} bothSelect = some s ∧
      s.deleted false = 2 ∧ s.deleted true = 2 ∧ s.took true = [] ∧
      s.deleted true = (s.took true).length + (s.late true).length := by
  let _ := asciiPlatform
  have selected : cleanupIds 8 10 (twoOld.foldl LogRun.apply {}).tables = [1, 2] := by
    unfold cleanupIds
    rw [List.mergeSort_of_pairwise (by decide)]
    decide
  have written : (cleanupMachine (fun _ : Bool => 8) 10).run {} (twoOld.map .write) =
      some { log := twoOld.foldl LogRun.apply {} } := rfl
  let start : CleanupRun Bool := { log := twoOld.foldl LogRun.apply {} }
  let waiting := (start.goto false (.deleting [1, 2])).goto true (.deleting [1, 2])
  have ran : (cleanupMachine (fun _ => 8) 10).run {} bothSelect =
      some ((waiting.delete false [1, 2]).delete true [1, 2]) := by
    rw [bothSelect, run_append, written, Option.bind_some, run_cons,
      select_found rfl selected (by decide), Option.bind_some, run_cons,
      select_found rfl selected (by decide), Option.bind_some, run_cons, delete_step rfl,
      Option.bind_some, run_cons, delete_step rfl]
    rfl
  exact ⟨_, ran, rfl, rfl, by decide,
    ((cleanup_races (fun _ => 8) 10 _ bothSelect ran).2.2.1 true).1⟩

end Sample

end LogLens
