import LogLens.GroupBookkeeping
import LogLens.Library.PageWalk
import LogLens.Listing

/-! A client that reads the pages of a listing one after the other, while logs are
ingested, deleted and cleaned up and groups are edited between its requests. -/

namespace LogLens
open LabelledMachine SqlQuery

section Walks
variable [Platform] [Collation]

/-- The items of a page, none where the request fails. -/
def answered {α : Type} : Except Raised (ListResponse α) → List α
  | .ok response => response.items
  | .error _ => []

/-- The items of the first `n` pages, `tables k` being what the SELECT of the page behind `k`
others sees. -/
def LogListQuery.walk (query : LogListQuery) (tables : Nat → LogTables) (n : Nat) : List Log :=
  (List.range n).flatMap fun k => answered (listLogs (query.behind k) (tables k))

def ErrorGroupListQuery.walk (query : ErrorGroupListQuery) (tables : Nat → LogTables) (n : Nat) :
    List ErrorGroup :=
  (List.range n).flatMap fun k => answered (listErrorGroups (query.behind k) (tables k))

/-- The ids in the order of the listing. -/
def LogListQuery.listedIds (query : LogListQuery) (t : LogTables) : List Nat :=
  (query.sortStatement (query.buildQuery t)).map Log.id

def ErrorGroupListQuery.listedIds (query : ErrorGroupListQuery) (t : LogTables) : List Nat :=
  (query.sortStatement (query.buildQuery t)).map ErrorGroup.id

theorem LogListQuery.answered_sublist (query : LogListQuery) (t : LogTables) (k : Nat) :
    (answered (listLogs (query.behind k) t)).Sublist
      (slice (k + 1) query.pageSize (query.sortStatement (query.buildQuery t))) := by
  cases answer : listLogs (query.behind k) t with
  | error e => exact List.nil_sublist _
  | ok response =>
    obtain ⟨-, rfl⟩ := (query.listLogs_ok t k response).mp answer
    exact List.Sublist.refl _

/-- Where a page is answered, all pages before it are. -/
theorem LogListQuery.walk_ids (query : LogListQuery) (tables : Nat → LogTables) {n : Nat}
    {last : ListResponse Log} (answer : listLogs (query.behind n) (tables n) = .ok last) :
    (query.walk tables (n + 1)).map Log.id =
      SqlQuery.walk query.pageSize (fun k => query.listedIds (tables k)) (n + 1) := by
  refine Eq.trans (congrArg _ ?_) (map_walk Log.id query.pageSize
    (fun k => query.sortStatement (query.buildQuery (tables k))) (n + 1))
  obtain ⟨⟨fits, offset⟩, -⟩ := (query.listLogs_ok (tables n) n last).mp answer
  refine List.flatMap_congr fun k here => ?_
  have before : k * query.pageSize ≤ n * query.pageSize :=
    Nat.mul_le_mul_right _ (by have := List.mem_range.mp here; omega)
  rw [(query.listLogs_ok (tables k) k _).mpr ⟨⟨fits, before.trans_lt offset⟩, rfl⟩]
  rfl

theorem ErrorGroupListQuery.walk_ids (query : ErrorGroupListQuery) (tables : Nat → LogTables)
    {n : Nat} {last : ListResponse ErrorGroup}
    (answer : listErrorGroups (query.behind n) (tables n) = .ok last) :
    (query.walk tables (n + 1)).map ErrorGroup.id =
      SqlQuery.walk query.pageSize (fun k => query.listedIds (tables k)) (n + 1) := by
  refine Eq.trans (congrArg _ ?_) (map_walk ErrorGroup.id query.pageSize
    (fun k => query.sortStatement (query.buildQuery (tables k))) (n + 1))
  obtain ⟨⟨fits, offset⟩, -⟩ := (query.listErrorGroups_ok (tables n) n last).mp answer
  refine List.flatMap_congr fun k here => ?_
  have before : k * query.pageSize ≤ n * query.pageSize :=
    Nat.mul_le_mul_right _ (by have := List.mem_range.mp here; omega)
  rw [(query.listErrorGroups_ok (tables k) k _).mpr ⟨⟨fits, before.trans_lt offset⟩, rfl⟩]
  rfl

theorem LogListQuery.listedIds_nodup (query : LogListQuery) {t : LogTables} (keys : t.PrimaryKeys) :
    (query.listedIds t).Nodup := by
  refine ((orderBy_perm _ _ _ _).map Log.id).nodup_iff.mpr ?_
  rw [query.buildQuery_eq keys]
  exact (List.filter_sublist.map Log.id).nodup keys.logs

theorem ErrorGroupListQuery.listedIds_nodup (query : ErrorGroupListQuery) {t : LogTables}
    (keys : t.PrimaryKeys) : (query.listedIds t).Nodup :=
  ((orderBy_perm _ _ _ _).map ErrorGroup.id).nodup_iff.mpr
    ((List.filter_sublist.map ErrorGroup.id).nodup keys.errorGroups)

theorem LogListQuery.mem_listedIds (query : LogListQuery) {t : LogTables} (keys : t.PrimaryKeys)
    (id : Nat) : id ∈ query.listedIds t ↔ ∃ log ∈ t.logs, log.id = id ∧ query.Accepts t log := by
  rw [LogListQuery.listedIds, List.mem_map]
  refine exists_congr fun log => ?_
  rw [query.mem_sorted keys, and_right_comm, and_assoc]

theorem ErrorGroupListQuery.mem_listedIds (query : ErrorGroupListQuery) (t : LogTables) (id : Nat) :
    id ∈ query.listedIds t ↔ ∃ group ∈ t.errorGroups, group.id = id ∧ query.Accepts group := by
  rw [ErrorGroupListQuery.listedIds, List.mem_map]
  refine exists_congr fun group => ?_
  rw [query.mem_sorted, and_right_comm, and_assoc]

theorem LogListQuery.listedIds_short (query : LogListQuery) {t : LogTables} {n : Nat}
    {last : ListResponse Log} (answer : listLogs (query.behind n) t = .ok last)
    (short : last.items.length < query.pageSize) :
    (query.listedIds t).length ≤ (n + 1) * query.pageSize := by
  obtain ⟨-, rfl⟩ := (query.listLogs_ok t n last).mp answer
  rw [LogListQuery.listedIds, List.length_map]
  exact length_le_of_short short

theorem ErrorGroupListQuery.listedIds_short (query : ErrorGroupListQuery) {t : LogTables} {n : Nat}
    {last : ListResponse ErrorGroup} (answer : listErrorGroups (query.behind n) t = .ok last)
    (short : last.items.length < query.pageSize) :
    (query.listedIds t).length ≤ (n + 1) * query.pageSize := by
  obtain ⟨-, rfl⟩ := (query.listErrorGroups_ok t n last).mp answer
  rw [ErrorGroupListQuery.listedIds, List.length_map]
  exact length_le_of_short short

/-- In a walk up to a page that is not full, a log that passes the filters at every page is returned
once, and once more for each time that what comes before it pushes it back over the end of a page,
less the times that it is pulled forward over one; and so is a group. -/
theorem page_walk_exact (tables : Nat → LogTables) (keys : ∀ k, (tables k).PrimaryKeys)
    (n id : Nat) :
    (∀ query : LogListQuery,
      (∀ k ≤ n, ∃ log ∈ (tables k).logs, log.id = id ∧ query.Accepts (tables k) log) →
      ∀ last, listLogs (query.behind n) (tables n) = .ok last →
      last.items.length < query.pageSize →
      ((query.walk tables (n + 1)).map Log.id).count id +
          pulled query.pageSize (fun k => query.listedIds (tables k)) id n =
        1 + pushed query.pageSize (fun k => query.listedIds (tables k)) id n) ∧
    ∀ query : ErrorGroupListQuery,
      (∀ k ≤ n, ∃ group ∈ (tables k).errorGroups, group.id = id ∧ query.Accepts group) →
      ∀ last, listErrorGroups (query.behind n) (tables n) = .ok last →
      last.items.length < query.pageSize →
      ((query.walk tables (n + 1)).map ErrorGroup.id).count id +
          pulled query.pageSize (fun k => query.listedIds (tables k)) id n =
        1 + pushed query.pageSize (fun k => query.listedIds (tables k)) id n := by
  constructor
  · intro query stays last answer short
    rw [query.walk_ids tables answer]
    exact count_walk (fun k _ => query.listedIds_nodup (keys k))
      (fun k below => (query.mem_listedIds (keys k) id).mpr (stays k below))
      (query.listedIds_short answer short)
  · intro query stays last answer short
    rw [query.walk_ids tables answer]
    exact count_walk (fun k _ => query.listedIds_nodup (keys k))
      (fun k below => (query.mem_listedIds (tables k) id).mpr (stays k below))
      (query.listedIds_short answer short)

end Walks

section Deletion

/-- Two logs, the later one first. -/
def twoLogs : LogTables :=
  letI := asciiPlatform
  { logs := [(2, 7), (1, 3)].map fun log =>
      logRow 0 (minimalRequest .info { clock := 0, utcoffset := none }) log.2 none none log.1
    nextLogId := 3 }

/-- The later log is deleted when its page has been read. -/
def firstDeleted : Nat → LogTables
  | 0 => twoLogs
  | _ + 1 => letI := asciiPlatform; (deleteLog 2 none twoLogs).2

def onePerPage : LogListQuery := { pageSize := 1, pageSize_range := by decide }

theorem onePerPage_fits (k : Nat) (offset : k < 2 ^ 63) :
    onePerPage.Fits ∧ k * onePerPage.pageSize < 2 ^ 63 :=
  ⟨by constructor <;> rintro _ ⟨⟩, (Nat.mul_one k).symm ▸ offset⟩

theorem listedIds_firstDeleted (k : Nat) :
    letI := asciiPlatform
    letI := asciiCollation
    onePerPage.listedIds (firstDeleted k) = if k = 0 then [2, 1] else [1] := by
  let _ := asciiPlatform
  let _ := asciiCollation
  unfold LogListQuery.listedIds LogListQuery.sortStatement orderBy
  cases k with
  | zero =>
    rw [List.mergeSort_of_pairwise]
    · decide
    · decide
  | succ k =>
    rw [List.mergeSort_of_pairwise]
    · change (onePerPage.buildQuery (firstDeleted 1)).map Log.id = [1]
      decide
    · change List.Pairwise _ (onePerPage.buildQuery (firstDeleted 1))
      decide

theorem firstDeleted_keys (k : Nat) : (firstDeleted k).PrimaryKeys := by
  cases k with
  | zero => exact ⟨by decide, List.nodup_nil⟩
  | succ k => exact ⟨by change ((firstDeleted 1).logs.map Log.id).Nodup; decide, List.nodup_nil⟩

/-- The earlier log is on neither page. -/
theorem page_walk_exact_firstDeleted :
    letI := asciiPlatform
    letI := asciiCollation
    ((onePerPage.walk firstDeleted 2).map Log.id).count 1 = 0 ∧
      pulled 1 (fun k => onePerPage.listedIds (firstDeleted k)) 1 1 = 1 := by
  let _ := asciiPlatform
  let _ := asciiCollation
  have both := (page_walk_exact firstDeleted firstDeleted_keys 1 1).1 onePerPage
    (fun k _ => by
      rw [← onePerPage.mem_listedIds (firstDeleted_keys k), listedIds_firstDeleted]
      split <;> decide)
    _ ((onePerPage.listLogs_ok (firstDeleted 1) 1 _).mpr ⟨onePerPage_fits 1 (by decide), rfl⟩) (by
      change (slice 2 1 (onePerPage.sortStatement (onePerPage.buildQuery (firstDeleted 1)))).length
        < 1
      rw [LogListQuery.sortStatement, slice, List.length_take, List.length_drop,
        (orderBy_perm _ _ _ _).length_eq]
      decide)
  have skipped : pulled 1 (fun k => onePerPage.listedIds (firstDeleted k)) 1 1 = 1 := by
    simp only [pulled, listedIds_firstDeleted]
    decide
  have never : pushed 1 (fun k => onePerPage.listedIds (firstDeleted k)) 1 1 = 0 := by
    simp only [pushed, listedIds_firstDeleted]
    decide
  change _ + pulled 1 _ 1 1 = 1 + pushed 1 _ 1 1 at both
  rw [skipped, never] at both
  exact ⟨Nat.succ.inj both, skipped⟩

end Deletion

section Operations

def LogOp.ingests : LogOp → Bool
  | .ingestLog .. | .persistItem .. => true
  | .deleteLog .. | .cleanupBatch .. | .updateStatus .. | .updateAssignment .. => false

def LogOp.deletes : LogOp → Bool
  | .deleteLog .. | .cleanupBatch .. => true
  | .ingestLog .. | .persistItem .. | .updateStatus .. | .updateAssignment .. => false

theorem searched_removes {t t' : LogTables} (groups : t'.errorGroups = t.errorGroups) (log : Log) :
    log.searched t' = log.searched t := by
  have same : t'.groupOf log = t.groupOf log := by
    unfold LogTables.groupOf
    rw [groups]
  rw [Log.searched, Log.searched, same]

/-- Triage keeps the columns of a group that a search of the logs reads. -/
theorem searched_triage {t t' : LogTables} (triage : Triage t t') (log : Log) :
    log.searched t' = log.searched t := by
  obtain ⟨f, rfl, edited⟩ := triage
  have columns (g : ErrorGroup) :
      (f g).id = g.id ∧ (f g).title = g.title ∧ (f g).fingerprint = g.fingerprint := by
    obtain ⟨status, assignedTo, same⟩ := edited g
    rw [same]
    exact ⟨rfl, rfl, rfl⟩
  have mapped : ({ t with errorGroups := t.errorGroups.map f } : LogTables).groupOf log =
      (t.groupOf log).map f := by
    unfold LogTables.groupOf
    cases log.errorGroupId with
    | none => rfl
    | some id =>
      simp only [Option.bind_some, List.find?_map, Function.comp_def, (columns _).1]
  rw [Log.searched, Log.searched, mapped, Option.map_map, Option.map_map]
  simp only [Function.comp_def, (columns _).2.1, (columns _).2.2]

variable [Platform]

/-- No log is gained, and each is found by the same texts. -/
structure Shrinks (t t' : LogTables) : Prop where
  logs : t'.logs ⊆ t.logs
  searched : ∀ log : Log, log.searched t' = log.searched t

theorem apply_shrinks (s : LogRun) {op : LogOp} (quiet : op.ingests = false) :
    Shrinks s.tables (s.apply op).tables := by
  cases op with
  | ingestLog | persistItem => cases quiet
  | deleteLog logId commitError =>
    have rows := deleteLog_rows logId commitError s.tables
    exact ⟨rows.1.subset, searched_removes rows.2.1⟩
  | cleanupBatch threshold batchSize commitError =>
    have rows := cleanupBatch_rows threshold batchSize commitError s.tables
    exact ⟨rows.1.subset, searched_removes rows.2.1⟩
  | updateStatus groupId status commitError =>
    have triage := updateStatus_triage groupId status commitError s.tables
    refine ⟨?_, searched_triage triage⟩
    obtain ⟨f, same, -⟩ := triage
    rw [LogRun.apply, same]
    exact List.Subset.refl _
  | updateAssignment users currentUser groupId assignedTo commitError =>
    have triage := updateAssignment_triage users currentUser groupId assignedTo commitError s.tables
    refine ⟨?_, searched_triage triage⟩
    obtain ⟨f, same, -⟩ := triage
    rw [LogRun.apply, same]
    exact List.Subset.refl _

theorem apply_grows (s : LogRun) {op : LogOp} (quiet : op.deletes = false) :
    s.tables.logs ⊆ (s.apply op).tables.logs := by
  cases op with
  | deleteLog | cleanupBatch => cases quiet
  | ingestLog now fault commitError payload =>
    obtain ⟨log, t, ran, persists⟩ | ⟨e, t, ran, rolled⟩ :=
      ingestLog_cases now fault commitError payload s.tables
    · rw [LogRun.apply, ran]
      exact persists.logs ▸ List.subset_append_left _ _
    · rw [LogRun.apply, ran]
      exact rolled.1 ▸ List.Subset.refl _
  | persistItem now fault commitError payload =>
    obtain ⟨log, t, ran, persists⟩ | ⟨e, t, ran, rolled⟩ :=
      persistItem_cases now fault commitError payload s.tables
    · rw [LogRun.apply, ran]
      exact persists.logs ▸ List.subset_append_left _ _
    · rw [LogRun.apply, ran]
      exact rolled.1 ▸ List.Subset.refl _
  | updateStatus groupId status commitError =>
    obtain ⟨f, same, -⟩ := updateStatus_triage groupId status commitError s.tables
    rw [LogRun.apply, same]
    exact List.Subset.refl _
  | updateAssignment users currentUser groupId assignedTo commitError =>
    obtain ⟨f, same, -⟩ :=
      updateAssignment_triage users currentUser groupId assignedTo commitError s.tables
    rw [LogRun.apply, same]
    exact List.Subset.refl _

/-- The columns of a group that nothing rewrites. -/
def ErrorGroup.fixed (g : ErrorGroup) : Nat × Str × LogEnvironment × Timestamp :=
  (g.id, g.serviceName, g.environment, g.createdAt)

/-- A group stays, with these columns, whatever is done. -/
theorem LogEffect.groups {s s' : LogRun} (effect : LogEffect s s') :
    s.tables.errorGroups.map ErrorGroup.fixed ⊆ s'.tables.errorGroups.map ErrorGroup.fixed := by
  cases effect with
  | inserts persists =>
    cases persists with
    | ungrouped => exact List.Subset.refl _
    | @conflict timestamp =>
      have same (v : GroupValues) (g : ErrorGroup) : (v.mergeInto g).fixed = g.fixed := by
        unfold GroupValues.mergeInto
        split <;> rfl
      rw [column_map (same _)]
      exact List.Subset.refl _
    | inserted =>
      rw [List.map_append]
      exact List.subset_append_left _ _
  | removes _ groups => exact groups ▸ List.Subset.refl _
  | edits triage =>
    obtain ⟨f, rfl, edited⟩ := triage
    have same (g : ErrorGroup) : (f g).fixed = g.fixed := by
      obtain ⟨status, assignedTo, same⟩ := edited g
      rw [same]
      rfl
    rw [column_map same]
    exact List.Subset.refl _

end Operations

section Runs
variable [Platform]

/-- The state at the page behind `k` others, with the operations between the pages. -/
def LogRun.after (s : LogRun) (between : Nat → List LogOp) : Nat → LogRun
  | 0 => s
  | k + 1 => (between k).foldl LogRun.apply (s.after between k)

theorem after_reached {s : LogRun} (reached : Reach logMachine Always LogRun.Initial s)
    (between : Nat → List LogOp) (k : Nat) :
    Reach logMachine Always LogRun.Initial (s.after between k) := by
  induction k with
  | zero => exact reached
  | succ k ih => exact reach_foldl (between k) ih

/-- The sequence of the ids gives every log its own. -/
theorem reach_primaryKeys {s : LogRun} (reached : Reach logMachine Always LogRun.Initial s) :
    s.tables.PrimaryKeys :=
  ⟨(reach_rowsInserted reached).keys, (reach_bookkeeping reached).ids⟩

variable {s : LogRun} {between : Nat → List LogOp}

theorem after_grows (quiet : ∀ k, ∀ op ∈ between k, op.deletes = false) (k : Nat) :
    (s.after between k).tables.logs ⊆ (s.after between (k + 1)).tables.logs :=
  List.foldlRecOn (motive := fun t => (s.after between k).tables.logs ⊆ t.tables.logs)
    (between k) LogRun.apply (List.Subset.refl _)
    fun _ kept op hop => List.Subset.trans kept (apply_grows _ (quiet k op hop))

theorem after_shrinks (quiet : ∀ k, ∀ op ∈ between k, op.ingests = false) (k : Nat) :
    Shrinks (s.after between k).tables (s.after between (k + 1)).tables := by
  refine List.foldlRecOn (motive := fun t => Shrinks (s.after between k).tables t.tables)
    (between k) LogRun.apply ⟨List.Subset.refl _, fun _ => rfl⟩ ?_
  intro t shrinks op hop
  have next := apply_shrinks t (quiet k op hop)
  exact ⟨List.Subset.trans next.logs shrinks.logs,
    fun log => (next.searched log).trans (shrinks.searched log)⟩

theorem after_groups (k : Nat) : (s.after between k).tables.errorGroups.map ErrorGroup.fixed ⊆
    (s.after between (k + 1)).tables.errorGroups.map ErrorGroup.fixed :=
  List.foldlRecOn (motive := fun t => (s.after between k).tables.errorGroups.map ErrorGroup.fixed ⊆
      t.tables.errorGroups.map ErrorGroup.fixed)
    (between k) LogRun.apply (List.Subset.refl _)
    fun t kept op _ => List.Subset.trans kept (apply_effect t op).groups

variable [Collation]

theorem LogListQuery.Accepts.later {query : LogListQuery} {t t' : LogTables} {log : Log}
    (accepts : query.Accepts t log)
    (text : query.text = none ∨ log.searched t' = log.searched t) : query.Accepts t' log :=
  { accepts with
    text := fun value present => by
      rcases text with noText | same
      · rw [noText] at present
        cases present
      · exact same ▸ accepts.text value present }

/-- The query filters by columns alone that nothing rewrites, and sorts by the creation. -/
structure ErrorGroupListQuery.Fixed (query : ErrorGroupListQuery) : Prop where
  status : query.status = none
  severity : query.severity = none
  assignedTo : query.assignedTo = none
  text : query.text = none
  fromTimestamp : query.fromTimestamp = none
  toTimestamp : query.toTimestamp = none
  sortBy : query.sortBy = .createdAt

theorem ErrorGroupListQuery.Fixed.accepts_iff {query : ErrorGroupListQuery} (fixed : query.Fixed)
    (group : ErrorGroup) : query.Accepts group ↔
      (∀ value ∈ query.service, group.serviceName = value) ∧
        ∀ value ∈ query.environment, group.environment = value := by
  constructor
  · exact fun accepts => ⟨accepts.service, accepts.environment⟩
  · rintro ⟨service, environment⟩
    exact {
      service := service
      environment := environment
      status := by simp [fixed.status]
      severity := by simp [fixed.severity]
      assignedTo := by simp [fixed.assignedTo]
      fromTimestamp := by simp [fixed.fromTimestamp]
      toTimestamp := by simp [fixed.toTimestamp]
      text := by simp [fixed.text] }

/-- A group that such a query lists is listed from then on, at the same place in its order. -/
theorem ErrorGroupListQuery.Fixed.kept {query : ErrorGroupListQuery} (fixed : query.Fixed) (k : Nat)
    {group : ErrorGroup} (here : group ∈ (s.after between k).tables.errorGroups)
    (accepts : query.Accepts group) : ∃ group' ∈ (s.after between (k + 1)).tables.errorGroups,
      group'.id = group.id ∧ query.sortBy.column group' = query.sortBy.column group ∧
        query.Accepts group' := by
  obtain ⟨group', here', same⟩ := List.mem_map.mp (after_groups k (List.mem_map_of_mem here))
  obtain ⟨sameId, service, environment, created⟩ : group'.id = group.id ∧
      group'.serviceName = group.serviceName ∧ group'.environment = group.environment ∧
        group'.createdAt = group.createdAt := by
    simpa [ErrorGroup.fixed] using same
  refine ⟨group', here', sameId, ?_, ?_⟩
  · rw [fixed.sortBy]
    exact created
  · rw [fixed.accepts_iff] at accepts ⊢
    rw [service, environment]
    exact accepts

theorem mem_walk_tables {query : LogListQuery} {tables : Nat → LogTables} {n : Nat} {log : Log}
    (seen : log ∈ query.walk tables n) (keys : ∀ k, (tables k).PrimaryKeys) :
    ∃ k < n, log ∈ (tables k).logs := by
  obtain ⟨k, hk, item⟩ := List.mem_flatMap.mp seen
  have sorted : log ∈ query.sortStatement (query.buildQuery (tables k)) :=
    List.mem_of_mem_drop (List.mem_of_mem_take ((query.answered_sublist _ k).subset item))
  exact ⟨k, List.mem_range.mp hk, ((query.mem_sorted (keys k) log).mp sorted).1⟩

/-- While logs are only added, a walk without a search text misses none. -/
theorem walk_while_growing (reached : Reach logMachine Always LogRun.Initial s)
    (query : LogListQuery) (noText : query.text = none)
    (quiet : ∀ k, ∀ op ∈ between k, op.deletes = false) {n : Nat}
    {last : ListResponse Log}
    (answer : listLogs (query.behind n) (s.after between n).tables = .ok last)
    (short : last.items.length < query.pageSize)
    {log : Log} (here : log ∈ s.tables.logs) (accepts : query.Accepts s.tables log) :
    log ∈ query.walk (fun k => (s.after between k).tables) (n + 1) := by
  have keys (k : Nat) : (s.after between k).tables.PrimaryKeys :=
    reach_primaryKeys (after_reached reached between k)
  have stays (k : Nat) : log ∈ (s.after between k).tables.logs := by
    induction k with
    | zero => exact here
    | succ k ih => exact after_grows quiet k ih
  have listed (k : Nat) : log.id ∈ query.listedIds (s.after between k).tables :=
    (query.mem_listedIds (keys k) log.id).mpr ⟨log, stays k, rfl, accepts.later (.inl noText)⟩
  have later (k : Nat) : (query.listedIds (s.after between k).tables).idxOf log.id ≤
      (query.listedIds (s.after between (k + 1)).tables).idxOf log.id := by
    refine idxOf_le (query.listedIds_nodup (keys k)) (query.listedIds_nodup (keys (k + 1)))
      (query.sorted (keys k)) (query.sorted (keys (k + 1))) (fun b hb => ⟨b, ?_, rfl, rfl⟩) ?_
    · rw [query.mem_sorted (keys k)] at hb
      rw [query.mem_sorted (keys (k + 1))]
      exact ⟨after_grows quiet k hb.1, hb.2.later (.inl noText)⟩
    · exact (query.mem_sorted (keys k) log).mpr ⟨stays k, accepts.later (.inl noText)⟩
  have seen : log.id ∈ (query.walk (fun k => (s.after between k).tables) (n + 1)).map Log.id := by
    rw [query.walk_ids (fun k => (s.after between k).tables) answer]
    exact mem_walk (fun k _ => query.listedIds_nodup (keys k)) (fun k _ => listed k)
      (query.listedIds_short answer short) fun k _ => later k
  obtain ⟨other, item, same⟩ := List.mem_map.mp seen
  obtain ⟨k, -, there⟩ := mem_walk_tables item keys
  exact List.inj_on_of_nodup_map (keys k).logs there (stays k) same ▸ item

/-- While logs are only taken away, a walk repeats none. -/
theorem walk_while_shrinking (reached : Reach logMachine Always LogRun.Initial s)
    (query : LogListQuery) (quiet : ∀ k, ∀ op ∈ between k, op.ingests = false) (n : Nat) :
    ((query.walk (fun k => (s.after between k).tables) n).map Log.id).Nodup := by
  have keys (k : Nat) : (s.after between k).tables.PrimaryKeys :=
    reach_primaryKeys (after_reached reached between k)
  have earlier {k : Nat} {log : Log} (here : log ∈ query.sortStatement
      (query.buildQuery (s.after between (k + 1)).tables)) :
      log ∈ query.sortStatement (query.buildQuery (s.after between k).tables) := by
    have shrinks : Shrinks (s.after between k).tables (s.after between (k + 1)).tables :=
      after_shrinks quiet k
    rw [query.mem_sorted (keys (k + 1))] at here
    rw [query.mem_sorted (keys k)]
    exact ⟨shrinks.logs here.1, here.2.later (.inr (shrinks.searched log).symm)⟩
  have total : (query.walk (fun k => (s.after between k).tables) n).Sublist
      (SqlQuery.walk query.pageSize (fun k =>
        query.sortStatement (query.buildQuery (s.after between k).tables)) n) :=
    List.Sublist.flatMap_right _ fun k _ => query.answered_sublist _ k
  refine (total.map Log.id).nodup ?_
  rw [map_walk]
  refine walk_nodup (fun k _ => query.listedIds_nodup (keys k)) fun k _ id listed => ?_
  obtain ⟨log, here, rfl⟩ := List.mem_map.mp listed
  refine ⟨List.mem_map_of_mem (earlier here), ?_⟩
  exact idxOf_le (query.listedIds_nodup (keys (k + 1))) (query.listedIds_nodup (keys k))
    (query.sorted (keys (k + 1))) (query.sorted (keys k))
    (fun b hb => ⟨b, earlier hb, rfl, rfl⟩) here

/-- In the order of their creation, and without a filter on what changes, no group is missed. -/
theorem walk_of_groups (reached : Reach logMachine Always LogRun.Initial s)
    {query : ErrorGroupListQuery} (fixed : query.Fixed) {n : Nat}
    {last : ListResponse ErrorGroup}
    (answer : listErrorGroups (query.behind n) (s.after between n).tables = .ok last)
    (short : last.items.length < query.pageSize)
    {group : ErrorGroup} (here : group ∈ s.tables.errorGroups) (accepts : query.Accepts group) :
    group.id ∈ (query.walk (fun k => (s.after between k).tables) (n + 1)).map ErrorGroup.id := by
  have keys (k : Nat) : (s.after between k).tables.PrimaryKeys :=
    reach_primaryKeys (after_reached reached between k)
  have stays (k : Nat) : ∃ row ∈ (s.after between k).tables.errorGroups,
      row.id = group.id ∧ query.Accepts row := by
    induction k with
    | zero => exact ⟨group, here, rfl, accepts⟩
    | succ k ih =>
      obtain ⟨row, there, same, accepted⟩ := ih
      obtain ⟨next, there', same', -, accepted'⟩ := fixed.kept k there accepted
      exact ⟨next, there', same'.trans same, accepted'⟩
  have later (k : Nat) : (query.listedIds (s.after between k).tables).idxOf group.id ≤
      (query.listedIds (s.after between (k + 1)).tables).idxOf group.id := by
    obtain ⟨row, there, same, accepted⟩ := stays k
    rw [← same]
    refine idxOf_le (query.listedIds_nodup (keys k)) (query.listedIds_nodup (keys (k + 1)))
      (query.sorted (keys k)) (query.sorted (keys (k + 1))) (fun b hb => ?_)
      ((query.mem_sorted _ row).mpr ⟨there, accepted⟩)
    rw [query.mem_sorted] at hb
    obtain ⟨b', there', sameId, sameOrder, accepted'⟩ := fixed.kept k hb.1 hb.2
    exact ⟨b', (query.mem_sorted _ b').mpr ⟨there', accepted'⟩, sameId, sameOrder⟩
  rw [query.walk_ids (fun k => (s.after between k).tables) answer]
  exact mem_walk (fun k _ => query.listedIds_nodup (keys k))
    (fun k _ => (query.mem_listedIds _ group.id).mpr (stays k))
    (query.listedIds_short answer short) fun k _ => later k

/-- What a client that reads up to a page that is not full can rely on while the tables change: as
long as nothing is deleted, every log there at the start is returned; as long as nothing is
ingested, none is returned twice; and by their creation all groups are, whatever happens. -/
theorem page_walk_runs (s : LogRun) (reached : Reach logMachine Always LogRun.Initial s)
    (between : Nat → List LogOp) (n : Nat) :
    (∀ query : LogListQuery, query.text = none → (∀ k, ∀ op ∈ between k, op.deletes = false) →
      ∀ last, listLogs (query.behind n) (s.after between n).tables = .ok last →
      last.items.length < query.pageSize →
      ∀ log ∈ s.tables.logs, query.Accepts s.tables log →
        log ∈ query.walk (fun k => (s.after between k).tables) (n + 1)) ∧
    (∀ query : LogListQuery, (∀ k, ∀ op ∈ between k, op.ingests = false) →
      ((query.walk (fun k => (s.after between k).tables) n).map Log.id).Nodup) ∧
    ∀ query : ErrorGroupListQuery, query.Fixed →
      ∀ last, listErrorGroups (query.behind n) (s.after between n).tables = .ok last →
      last.items.length < query.pageSize →
      ∀ group ∈ s.tables.errorGroups, query.Accepts group →
        group.id ∈ (query.walk (fun k => (s.after between k).tables) (n + 1)).map ErrorGroup.id :=
  ⟨fun query noText quiet _ answer short _ =>
      walk_while_growing reached query noText quiet answer short,
    fun query quiet => walk_while_shrinking reached query quiet n,
    fun _ fixed _ answer short _ => walk_of_groups reached fixed answer short⟩

end Runs

/-- The error comes a third time when one page has been read. -/
def onceMore : Nat → List LogOp
  | 0 => [.ingestLog 1 none none (minimalRequest .error { clock := 0, utcoffset := none })]
  | _ + 1 => []

/-- The first log is on one of the pages. -/
theorem page_walk_runs_onceMore :
    letI := asciiPlatform
    letI := asciiCollation
    ∃ log ∈ repeatedError.tables.logs, log.id = 1 ∧
      log ∈ onePerPage.walk (fun k => (repeatedError.after onceMore k).tables) 4 := by
  let _ := asciiPlatform
  let _ := asciiCollation
  have all (t : LogTables) (log : Log) : onePerPage.Accepts t log := by
    constructor <;> rintro _ ⟨⟩
  obtain ⟨log, here, first⟩ : ∃ log ∈ repeatedError.tables.logs, log.id = 1 := by decide
  refine ⟨log, here, first, (page_walk_runs repeatedError (reach_foldl _ (.start rfl)) onceMore 3).1
    onePerPage rfl ?_ _
    ((onePerPage.listLogs_ok (repeatedError.after onceMore 3).tables 3 _).mpr
      ⟨onePerPage_fits 3 (by decide), rfl⟩) ?_ log here (all _ log)⟩
  · intro k op hop
    cases k with
    | zero => rw [List.mem_singleton.mp hop]; rfl
    | succ k => cases hop
  · change (slice 4 1 (onePerPage.sortStatement
      (onePerPage.buildQuery (repeatedError.after onceMore 3).tables))).length < 1
    rw [LogListQuery.sortStatement, slice, List.length_take, List.length_drop,
      (orderBy_perm _ _ _ _).length_eq]
    decide

end LogLens
