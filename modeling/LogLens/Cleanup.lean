import LogLens.Ingestion
import Mathlib.Data.List.Sort

/-! `app/workers/tasks/cleanup_tasks.py`: the batched loop that deletes the logs
dated before a threshold, and its dry run. Nobody else writes meanwhile, and a
statement fails only if the database refuses its parameters. -/

namespace LogLens

structure CleanupReport where
  dryRun : Bool
  deletedCount : Nat
  deriving DecidableEq

/-- `Log.timestamp < threshold` -/
def LogTables.stale (threshold : Timestamp) (t : LogTables) : List Log :=
  t.logs.filter fun l => l.timestamp < threshold

/-- The `while` loop: the running count or what it raised, and the tables it ends with;
`none` when the rounds given do not suffice. -/
def cleanupLoop (threshold : Timestamp) (batchSize : Nat) :
    (rounds deleted : Nat) → LogTables → Option (Except Raised Nat × LogTables)
  | 0, _, _ => none
  | rounds + 1, deleted, t =>
    match cleanupBatch threshold batchSize none t with
    | (.error e, t) => some (.error e, t)
    | (.ok count, t) =>
      if count = 0 then some (.ok deleted, t)
      else cleanupLoop threshold batchSize rounds (deleted + count) t

/-- `_cleanup_old_logs`; `threshold` is the present less the retention. -/
def cleanupOldLogs (cleanupDryRunDefault : Bool) (threshold : Timestamp) (batchSize rounds : Nat)
    (dryRun : Option Bool) (t : LogTables) : Option (Except Raised CleanupReport × LogTables) :=
  let runDry := dryRun.getD cleanupDryRunDefault
  if runDry then some (.ok ⟨true, (t.stale threshold).length⟩, t)
  else (cleanupLoop threshold batchSize rounds 0 t).map fun r => (r.1.map (⟨runDry, ·⟩), r.2)

/-- The tables after a number of commits of the loop. -/
def afterCommits (threshold : Timestamp) (batchSize commits : Nat) (t : LogTables) : LogTables :=
  (fun t => (cleanupBatch threshold batchSize none t).2)^[commits] t

/-- What the cleanup is for. -/
def LogTables.retained (threshold : Timestamp) (t : LogTables) : LogTables :=
  { t with logs := t.logs.filter fun l => threshold ≤ l.timestamp }

/-- The cleanup ends, deletes exactly the rows dated before the threshold and counts
them; the dry run counts the same; and a run cut off after any commit and started
again ends with the same tables. -/
def CleansExactly (cleanupDryRunDefault : Bool) (threshold : Timestamp) (batchSize : Nat)
    (t : LogTables) : Prop :=
  ∃ deleted, deleted + (t.retained threshold).logs.length = t.logs.length ∧
    (∃ enough, ∀ rounds ≥ enough,
      cleanupOldLogs cleanupDryRunDefault threshold batchSize rounds (some false) t =
        some (.ok ⟨false, deleted⟩, t.retained threshold)) ∧
    (∀ rounds, cleanupOldLogs cleanupDryRunDefault threshold batchSize rounds (some true) t =
      some (.ok ⟨true, deleted⟩, t)) ∧
    ∀ commits, ∃ enough, ∀ rounds ≥ enough, ∃ rest,
      cleanupOldLogs cleanupDryRunDefault threshold batchSize rounds (some false)
        (afterCommits threshold batchSize commits t) =
          some (.ok ⟨false, rest⟩, t.retained threshold)

/-- The limit is a `bigint`, and no batch is larger than a statement may be. -/
def BatchesFit (threshold : Timestamp) (batchSize : Nat) (t : LogTables) : Prop :=
  batchSize < 2 ^ 63 ∧
    (batchSize ≤ maxQueryArguments ∨ (t.stale threshold).length ≤ maxQueryArguments)

section Batch
variable {threshold : Timestamp} {batchSize : Nat} {t : LogTables}

theorem length_cleanupIds : (cleanupIds threshold batchSize t).length =
    min batchSize (t.stale threshold).length := by
  simp [cleanupIds, LogTables.stale]

theorem cleanupIds_length_zero (positive : 1 ≤ batchSize) :
    (cleanupIds threshold batchSize t).length = 0 ↔ t.stale threshold = [] := by
  rw [length_cleanupIds, ← List.length_eq_zero_iff]
  omega

theorem cleanupIds_empty_iff (positive : 1 ≤ batchSize) :
    (cleanupIds threshold batchSize t).isEmpty = true ↔ t.stale threshold = [] := by
  rw [List.isEmpty_iff, ← List.length_eq_zero_iff, cleanupIds_length_zero positive]

theorem cleanupIds_stale {id : Nat} (selected : id ∈ cleanupIds threshold batchSize t) :
    ∃ l ∈ t.stale threshold, l.id = id := by
  have sorted := List.mem_of_mem_take selected
  rw [List.mem_mergeSort] at sorted
  exact List.mem_map.mp sorted

theorem batchesFit_iff : BatchesFit threshold batchSize t ↔
    batchSize < 2 ^ 63 ∧ (cleanupIds threshold batchSize t).length ≤ maxQueryArguments := by
  rw [BatchesFit, length_cleanupIds]
  omega

/-- A batch that fits deletes the selected rows. -/
theorem cleanupBatch_fits (fits : BatchesFit threshold batchSize t) :
    cleanupBatch threshold batchSize none t = (.ok (cleanupIds threshold batchSize t).length,
      { t with logs := t.logs.filter fun l => l.id ∉ cleanupIds threshold batchSize t }) := by
  obtain ⟨limit, few⟩ := batchesFit_iff.mp fits
  unfold cleanupBatch
  rw [if_pos ((bindable_bigint batchSize).mpr limit)]
  by_cases empty : (cleanupIds threshold batchSize t).isEmpty = true
  · simp [List.isEmpty_iff.mp empty]
  · simp [empty, not_lt.mpr few, endTransaction]

/-- A batch that does not fit is refused. -/
theorem cleanupBatch_refused (beyond : ¬ BatchesFit threshold batchSize t) :
    cleanupBatch threshold batchSize none t = (.error dbapiError, t) := by
  unfold cleanupBatch
  by_cases limit : batchSize < 2 ^ 63
  · have many : maxQueryArguments < (cleanupIds threshold batchSize t).length := by
      rw [batchesFit_iff, not_and] at beyond
      exact not_le.mp (beyond limit)
    have some : (cleanupIds threshold batchSize t).isEmpty = false := by
      rw [List.isEmpty_eq_false_iff, ← List.length_pos_iff]
      omega
    rw [if_pos ((bindable_bigint batchSize).mpr limit)]
    simp [some, many]
  · rw [if_neg ((bindable_bigint batchSize).not.mpr limit)]

/-- A row that shares its id with a selected one is stale itself. -/
theorem stale_of_selected (keys : (t.logs.map Log.id).Nodup) {l : Log} (hl : l ∈ t.logs)
    (selected : l.id ∈ cleanupIds threshold batchSize t) : l.timestamp < threshold := by
  obtain ⟨old, ho, same⟩ := cleanupIds_stale selected
  obtain ⟨mem, stale⟩ := List.mem_filter.mp ho
  rw [← List.inj_on_of_nodup_map keys mem hl same]
  exact of_decide_eq_true stale

theorem cleanupBatch_retained (keys : (t.logs.map Log.id).Nodup) :
    (cleanupBatch threshold batchSize none t).2.retained threshold = t.retained threshold := by
  by_cases fits : BatchesFit threshold batchSize t
  · rw [cleanupBatch_fits fits, LogTables.retained, LogTables.retained]
    simp only [List.filter_filter, LogTables.mk.injEq, and_true]
    refine List.filter_congr fun l hl => ?_
    rw [Bool.and_eq_left_iff_imp]
    intro kept
    refine decide_eq_true fun selected => ?_
    have fresh : threshold ≤ l.timestamp := of_decide_eq_true kept
    exact absurd (stale_of_selected keys hl selected) (not_lt.mpr fresh)
  · rw [cleanupBatch_refused fits]

/-- Each batch removes as many stale rows as it counts. -/
theorem cleanupBatch_stale (fits : BatchesFit threshold batchSize t)
    (keys : (t.logs.map Log.id).Nodup) :
    ((cleanupBatch threshold batchSize none t).2.stale threshold).length +
      (cleanupIds threshold batchSize t).length = (t.stale threshold).length := by
  have distinct : ((t.stale threshold).map Log.id).Nodup :=
    (List.filter_sublist.map Log.id).nodup keys
  have selected : List.Perm (((t.stale threshold).filter fun l =>
      decide (l.id ∈ cleanupIds threshold batchSize t)).map Log.id)
      (cleanupIds threshold batchSize t) := by
    refine (List.perm_ext_iff_of_nodup ((List.filter_sublist.map Log.id).nodup distinct) ?_).mpr ?_
    · have sorted := (List.mergeSort_perm ((t.stale threshold).map Log.id) (· ≤ ·)).nodup_iff
      exact (List.take_sublist _ _).nodup (sorted.mpr distinct)
    · intro id
      simp only [List.mem_map, List.mem_filter, decide_eq_true_eq]
      constructor
      · rintro ⟨l, ⟨-, here⟩, rfl⟩
        exact here
      · intro here
        obtain ⟨l, hl, rfl⟩ := cleanupIds_stale here
        exact ⟨l, ⟨hl, here⟩, rfl⟩
  have left : (cleanupBatch threshold batchSize none t).2.stale threshold =
      (t.stale threshold).filter fun l => !decide (l.id ∈ cleanupIds threshold batchSize t) := by
    rw [cleanupBatch_fits fits, LogTables.stale, LogTables.stale, List.filter_filter,
      List.filter_filter]
    refine List.filter_congr fun l _ => ?_
    rw [Bool.and_comm, decide_not]
  rw [left, ← selected.length_eq, List.length_map, Nat.add_comm]
  exact (List.length_eq_length_filter_add _).symm

/-- The tables that a batch leaves hold fewer rows, stale ones too. -/
theorem cleanupBatch_fewer : (cleanupBatch threshold batchSize none t).2.logs.Sublist t.logs := by
  by_cases fits : BatchesFit threshold batchSize t
  · rw [cleanupBatch_fits fits]
    exact List.filter_sublist
  · rw [cleanupBatch_refused fits]

theorem cleanupBatch_keys (keys : (t.logs.map Log.id).Nodup) :
    ((cleanupBatch threshold batchSize none t).2.logs.map Log.id).Nodup :=
  (cleanupBatch_fewer.map Log.id).nodup keys

theorem BatchesFit.next (fits : BatchesFit threshold batchSize t) :
    BatchesFit threshold batchSize (cleanupBatch threshold batchSize none t).2 := by
  have fewer : ((cleanupBatch threshold batchSize none t).2.stale threshold).length ≤
      (t.stale threshold).length := (cleanupBatch_fewer.filter _).length_le
  exact ⟨fits.1, fits.2.imp_right fewer.trans⟩

end Batch

theorem retained_of_fresh {threshold : Timestamp} {t : LogTables}
    (none : t.stale threshold = []) : t.retained threshold = t := by
  have all : ∀ l ∈ t.logs, threshold ≤ l.timestamp := by
    simpa [LogTables.stale, List.filter_eq_nil_iff] using none
  rw [LogTables.retained, List.filter_eq_self.mpr (by simpa using all)]

/-- Enough rounds of batches that fit end the loop with the count of the stale rows added
and only the others left. -/
theorem cleanupLoop_eq {threshold : Timestamp} {batchSize : Nat} (positive : 1 ≤ batchSize)
    (rounds deleted : Nat) {t : LogTables} (fits : BatchesFit threshold batchSize t)
    (keys : (t.logs.map Log.id).Nodup) (enough : (t.stale threshold).length < rounds) :
    cleanupLoop threshold batchSize rounds deleted t =
      some (.ok (deleted + (t.stale threshold).length), t.retained threshold) := by
  induction rounds generalizing deleted t with
  | zero => omega
  | succ rounds ih =>
    have removed := cleanupBatch_stale fits keys
    have kept := @cleanupBatch_retained threshold batchSize t keys
    have keysNext := @cleanupBatch_keys threshold batchSize t keys
    have fitsNext := fits.next
    have batch := cleanupBatch_fits fits
    rw [cleanupLoop]
    rw [batch] at removed kept keysNext fitsNext ⊢
    dsimp only
    split
    · rename_i empty
      have none := (cleanupIds_length_zero positive).mp empty
      have unchanged : cleanupIds threshold batchSize t = [] := List.length_eq_zero_iff.mp empty
      simp [retained_of_fresh none, none, unchanged]
    · rename_i some
      rw [ih _ fitsNext keysNext (by omega), kept, ← removed, Nat.add_assoc,
        Nat.add_comm (cleanupIds threshold batchSize t).length]

/-- The first batch of a loop that does not fit ends it. -/
theorem cleanupLoop_refused {threshold : Timestamp} {batchSize : Nat} (rounds deleted : Nat)
    {t : LogTables} (beyond : ¬ BatchesFit threshold batchSize t) :
    cleanupLoop threshold batchSize (rounds + 1) deleted t = some (.error dbapiError, t) := by
  rw [cleanupLoop, cleanupBatch_refused beyond]

/-- A cut after any commits leaves the same rows to delete and the same to keep. -/
theorem afterCommits_retained {threshold : Timestamp} {batchSize : Nat} (commits : Nat)
    {t : LogTables} (fits : BatchesFit threshold batchSize t)
    (keys : (t.logs.map Log.id).Nodup) :
    BatchesFit threshold batchSize (afterCommits threshold batchSize commits t) ∧
      ((afterCommits threshold batchSize commits t).logs.map Log.id).Nodup ∧
      (afterCommits threshold batchSize commits t).retained threshold = t.retained threshold := by
  induction commits generalizing t with
  | zero => exact ⟨fits, keys, rfl⟩
  | succ commits ih =>
    obtain ⟨fitsThen, distinct, same⟩ :=
      ih fits.next (@cleanupBatch_keys threshold batchSize t keys)
    unfold afterCommits at fitsThen distinct same ⊢
    rw [Function.iterate_succ_apply]
    exact ⟨fitsThen, distinct, same.trans (cleanupBatch_retained keys)⟩

theorem cleansExactly_of_fits (cleanupDryRunDefault : Bool) {threshold : Timestamp}
    {batchSize : Nat} (positive : 1 ≤ batchSize) {t : LogTables}
    (keys : (t.logs.map Log.id).Nodup) (fits : BatchesFit threshold batchSize t) :
    CleansExactly cleanupDryRunDefault threshold batchSize t := by
  have ends (rounds : Nat) {s : LogTables} (fits : BatchesFit threshold batchSize s)
      (keys : (s.logs.map Log.id).Nodup) (enough : rounds ≥ (s.stale threshold).length + 1) :
      cleanupOldLogs cleanupDryRunDefault threshold batchSize rounds (some false) s =
        some (.ok ⟨false, (s.stale threshold).length⟩, s.retained threshold) := by
    simp [cleanupOldLogs, cleanupLoop_eq positive rounds 0 fits keys enough, Except.map]
  refine ⟨(t.stale threshold).length, ?_, ⟨_, fun rounds => ends rounds fits keys⟩,
    fun rounds => rfl, fun commits => ?_⟩
  · have both := List.length_eq_length_filter_add (l := t.logs) fun l => l.timestamp < threshold
    simpa [LogTables.stale, LogTables.retained, ← decide_not] using both.symm
  · obtain ⟨fitsThen, distinct, same⟩ := afterCommits_retained commits fits keys
    exact ⟨_, fun rounds enough => ⟨_, same ▸ ends rounds fitsThen distinct enough⟩⟩

theorem fits_of_cleansExactly {cleanupDryRunDefault : Bool} {threshold : Timestamp}
    {batchSize : Nat} {t : LogTables}
    (exact : CleansExactly cleanupDryRunDefault threshold batchSize t) :
    BatchesFit threshold batchSize t := by
  obtain ⟨deleted, -, ⟨enough, ends⟩, -⟩ := exact
  by_contra beyond
  have ended := ends (enough + 1) (Nat.le_succ enough)
  simp [cleanupOldLogs, cleanupLoop_refused enough 0 beyond, Except.map] at ended

/-- The cleanup is exact on the tables where its batches are taken as parameters. -/
theorem cleanup_exact_iff (cleanupDryRunDefault : Bool) (threshold : Timestamp) (batchSize : Nat)
    (positive : 1 ≤ batchSize) (t : LogTables) (keys : (t.logs.map Log.id).Nodup) :
    CleansExactly cleanupDryRunDefault threshold batchSize t ↔
      batchSize < 2 ^ 63 ∧
        (batchSize ≤ maxQueryArguments ∨ (t.stale threshold).length ≤ maxQueryArguments) :=
  ⟨fits_of_cleansExactly, cleansExactly_of_fits cleanupDryRunDefault positive keys⟩

/-- Logs with the ids, each with the time of its id. -/
def datedLogs (ids : List Nat) : LogTables :=
  letI := asciiPlatform
  { logs := ids.map fun id : Nat =>
      logRow 0 (minimalRequest .info { clock := 0, utcoffset := none }) (id : Nat) none none id }

theorem datedLogs_ids (ids : List Nat) : (datedLogs ids).logs.map Log.id = ids := by
  simp [datedLogs, logRow, Function.comp_def, List.map_map]

theorem datedLogs_stale (n : Nat) :
    ((datedLogs (List.range' 1 n)).stale (n + 1)).length = n := by
  rw [LogTables.stale, List.filter_eq_self.mpr]
  · simp [datedLogs]
  · intro l hl
    obtain ⟨id, inside, rfl⟩ := List.mem_map.mp hl
    have below := List.mem_range'_1.mp inside
    refine decide_eq_true ?_
    change (id : Int) < n + 1
    omega

/-- Two logs dated before time 8 and one after it. -/
theorem cleanup_exact_datedLogs : ∃ enough, ∀ rounds ≥ enough,
    cleanupOldLogs false 8 1 rounds (some false) (datedLogs [7, 9, 2]) =
      some (.ok ⟨false, 2⟩, (datedLogs [7, 9, 2]).retained 8) := by
  obtain ⟨deleted, total, ends, -⟩ := (cleanup_exact_iff false 8 1 (le_refl 1)
    (datedLogs [7, 9, 2]) (by decide)).mpr ⟨by decide, by decide⟩
  have two : deleted = 2 := Nat.add_right_cancel total
  exact two ▸ ends

/-- A batch of 40000 logs is more than one statement takes. -/
theorem cleanup_fails :
    ¬ ∀ (cleanupDryRunDefault : Bool) (threshold : Timestamp) (batchSize : Nat) (t : LogTables),
      1 ≤ batchSize → (t.logs.map Log.id).Nodup →
        CleansExactly cleanupDryRunDefault threshold batchSize t := by
  intro exact
  have keys : ((datedLogs (List.range' 1 40000)).logs.map Log.id).Nodup := by
    rw [datedLogs_ids]
    exact List.nodup_range'
  have fits := fits_of_cleansExactly (exact false ((40000 : Nat) + 1) 40000 _ (by decide) keys)
  rw [BatchesFit, datedLogs_stale, maxQueryArguments] at fits
  omega

end LogLens
