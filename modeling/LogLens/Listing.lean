import LogLens.Ingestion
import LogLens.Library.LikePattern
import LogLens.Library.SqlQuery

/-! `LogService.list_logs` and `ErrorGroupService.list_error_groups` with the
queries their repositories build. No filter is checked against the type of its column, and
no page against the range of an offset. -/

namespace LogLens
open SqlQuery

/-- The lower case that ILIKE gives each character of a text and of its pattern. -/
class Collation where
  lower : Char → Char
  lower_ascii : ∀ c, IsAscii c → lower c = c.toLower
  lower_special : ∀ c, LikePattern.IsSpecial (lower c) → lower c = c

/-- `column.ilike(pattern)`, of a column that is not NULL. -/
def ilike [Collation] (pattern column : Str) : Bool :=
  LikePattern.like (pattern.map Collation.lower) (column.map Collation.lower)

/-- The same of a column that may be NULL. -/
def ilikeTruth [Collation] (pattern : Str) (column : Option Str) : Truth :=
  column.map (ilike pattern)

/-- `f"%{text.strip()}%"` -/
def searchPattern [Platform] (text : Str) : Str := '%' :: strip text ++ ['%']

inductive LogSortBy
  | timestamp | createdAt | logLevel
  deriving DecidableEq

structure LogListQuery where
  service : Option Str := none
  environment : Option LogEnvironment := none
  level : Option LogLevel := none
  fingerprint : Option Str := none
  errorGroupId : Option Int := none
  text : Option Str := none
  fromTimestamp : Option Timestamp := none
  toTimestamp : Option Timestamp := none
  sortBy : LogSortBy := .timestamp
  sortOrder : SortOrder := .desc
  page : Nat := 1
  pageSize : Nat := 20
  page_pos : 1 ≤ page := by decide
  pageSize_range : 1 ≤ pageSize ∧ pageSize ≤ 100 := by decide

inductive ErrorGroupSortBy
  | lastSeen | occurrenceCount | createdAt
  deriving DecidableEq

structure ErrorGroupListQuery where
  service : Option Str := none
  environment : Option LogEnvironment := none
  status : Option ErrorGroupStatus := none
  severity : Option ErrorGroupSeverity := none
  assignedTo : Option Int := none
  text : Option Str := none
  fromTimestamp : Option Timestamp := none
  toTimestamp : Option Timestamp := none
  sortBy : ErrorGroupSortBy := .lastSeen
  sortOrder : SortOrder := .desc
  page : Nat := 1
  pageSize : Nat := 20
  page_pos : 1 ≤ page := by decide
  pageSize_range : 1 ≤ pageSize ∧ pageSize ≤ 100 := by decide

structure PaginationMeta where
  page : Nat
  pageSize : Nat
  totalItems : Nat
  totalPages : Nat
  deriving DecidableEq

structure ListResponse (α : Type) where
  items : List α
  pagination : PaginationMeta
  deriving DecidableEq

/-- The count, the LIMIT and the OFFSET that both listings put on their sorted query. -/
def paginate {α : Type} (parameters : List Parameter) (page pageSize : Nat) (stmt : List α) :
    Except Raised (ListResponse α) := do
  let totalItems ← execute parameters stmt.length
  let offset := (page - 1) * pageSize
  let items ← execute (parameters ++ [.bigint pageSize, .bigint offset]) (slice page pageSize stmt)
  return {
    items := items
    pagination := ⟨page, pageSize, totalItems, pageCount totalItems pageSize⟩ }

/-- The condition of an optional filter on a column; a NULL column makes it NULL. -/
def condition {α β : Type} (filter : Option α) (holds : α → β → Bool) (column : Option β) :
    List Truth :=
  (filter.map fun value => column.map (holds value)).toList

/-- The position of a level in the type `log_level`, by which the database orders it. -/
def LogLevel.position : LogLevel → Int
  | .debug => 0
  | .info => 1
  | .warning => 2
  | .error => 3
  | .critical => 4

/-- The column a sort key names. -/
def LogSortBy.column : LogSortBy → Log → Int
  | .timestamp, log => log.timestamp
  | .createdAt, log => log.createdAt
  | .logLevel, log => log.logLevel.position

def ErrorGroupSortBy.column : ErrorGroupSortBy → ErrorGroup → Int
  | .lastSeen, group => group.lastSeen
  | .occurrenceCount, group => group.occurrenceCount
  | .createdAt, group => group.createdAt

section Queries
variable [Platform] [Collation]

/-- The WHERE clause over a log and the group joined to it. -/
def LogListQuery.conditions (query : LogListQuery) (row : Log × Option ErrorGroup) : List Truth :=
  condition query.service (fun s c => c = s) (some row.1.serviceName) ++
  condition query.environment (fun e c => c = e) (some row.1.environment) ++
  condition query.level (fun l c => c = l) (some row.1.logLevel) ++
  condition query.fingerprint (fun f c => c = f) row.1.fingerprint ++
  condition query.errorGroupId (fun i (c : Nat) => (c : Int) = i) row.1.errorGroupId ++
  condition query.fromTimestamp (fun t c => t ≤ c) (some row.1.timestamp) ++
  condition query.toTimestamp (fun t c => c ≤ t) (some row.1.timestamp) ++
  (query.text.map fun text =>
    let pattern := searchPattern text
    disjunction [ilikeTruth pattern (some row.1.message),
      ilikeTruth pattern (some row.1.normalizedMessage), ilikeTruth pattern row.1.stackTrace,
      ilikeTruth pattern row.1.fingerprint, ilikeTruth pattern (row.2.map (·.title)),
      ilikeTruth pattern (row.2.map (·.fingerprint))]).toList

/-- `LogRepository.build_query` -/
def LogListQuery.buildQuery (query : LogListQuery) (t : LogTables) : List Log :=
  (filterRows (fun row => conjunction (query.conditions row))
    (leftJoin (fun log group => log.errorGroupId.map fun id => decide (id = group.id)) t.logs
      t.errorGroups)).map (·.1)

/-- `LogService._sort_statement` -/
def LogListQuery.sortStatement (query : LogListQuery) (stmt : List Log) : List Log :=
  orderBy query.sortOrder query.sortBy.column Log.id stmt

/-- What the WHERE clause binds, less the names of enumerations. -/
def LogListQuery.parameters (query : LogListQuery) : List Parameter :=
  query.service.toList.map .text ++ query.fingerprint.toList.map .text ++
  query.errorGroupId.toList.map .integer ++ query.fromTimestamp.toList.map .timestamptz ++
  query.toTimestamp.toList.map .timestamptz ++
  query.text.toList.flatMap fun text => List.replicate 6 (.text (searchPattern text))

def listLogs (query : LogListQuery) (t : LogTables) : Except Raised (ListResponse Log) :=
  paginate query.parameters query.page query.pageSize (query.sortStatement (query.buildQuery t))

def ErrorGroupListQuery.conditions (query : ErrorGroupListQuery) (row : ErrorGroup) : List Truth :=
  condition query.service (fun s c => c = s) (some row.serviceName) ++
  condition query.environment (fun e c => c = e) (some row.environment) ++
  condition query.status (fun s c => c = s) (some row.status) ++
  condition query.severity (fun s c => c = s) (some row.severity) ++
  condition query.assignedTo (fun i (c : Nat) => (c : Int) = i) row.assignedTo ++
  condition query.fromTimestamp (fun t c => t ≤ c) (some row.lastSeen) ++
  condition query.toTimestamp (fun t c => c ≤ t) (some row.firstSeen) ++
  (query.text.map fun text =>
    let pattern := searchPattern text
    disjunction [ilikeTruth pattern (some row.title), ilikeTruth pattern (some row.fingerprint),
      ilikeTruth pattern row.exceptionType, ilikeTruth pattern (some row.serviceName)]).toList

/-- `ErrorGroupRepository.build_query` -/
def ErrorGroupListQuery.buildQuery (query : ErrorGroupListQuery) (t : LogTables) :
    List ErrorGroup :=
  filterRows (fun row => conjunction (query.conditions row)) t.errorGroups

/-- The `order_by` of `list_error_groups`. -/
def ErrorGroupListQuery.sortStatement (query : ErrorGroupListQuery) (stmt : List ErrorGroup) :
    List ErrorGroup :=
  orderBy query.sortOrder query.sortBy.column ErrorGroup.id stmt

def ErrorGroupListQuery.parameters (query : ErrorGroupListQuery) : List Parameter :=
  query.service.toList.map .text ++ query.assignedTo.toList.map .integer ++
  query.fromTimestamp.toList.map .timestamptz ++ query.toTimestamp.toList.map .timestamptz ++
  query.text.toList.flatMap fun text => List.replicate 4 (.text (searchPattern text))

def listErrorGroups (query : ErrorGroupListQuery) (t : LogTables) :
    Except Raised (ListResponse ErrorGroup) :=
  paginate query.parameters query.page query.pageSize (query.sortStatement (query.buildQuery t))

end Queries

/-- The primary keys of the two tables. -/
structure LogTables.PrimaryKeys (t : LogTables) : Prop where
  logs : (t.logs.map Log.id).Nodup
  errorGroups : (t.errorGroups.map ErrorGroup.id).Nodup

/-- The group a log is bound to. -/
def LogTables.groupOf (t : LogTables) (log : Log) : Option ErrorGroup :=
  log.errorGroupId.bind fun id => t.errorGroups.find? fun group => group.id = id

/-- The columns a text filter searches that are not NULL. -/
def Log.searched (t : LogTables) (log : Log) : List Str :=
  [log.message, log.normalizedMessage] ++ log.stackTrace.toList ++ log.fingerprint.toList ++
    (((t.groupOf log).map (·.title)).toList ++ ((t.groupOf log).map (·.fingerprint)).toList)

def ErrorGroup.searched (group : ErrorGroup) : List Str :=
  [group.title, group.fingerprint] ++ group.exceptionType.toList ++ [group.serviceName]

section Meaning
variable [Platform] [Collation]

/-- A log passes every filter of the query. -/
structure LogListQuery.Accepts (query : LogListQuery) (t : LogTables) (log : Log) : Prop where
  service : ∀ value ∈ query.service, log.serviceName = value
  environment : ∀ value ∈ query.environment, log.environment = value
  level : ∀ value ∈ query.level, log.logLevel = value
  fingerprint : ∀ value ∈ query.fingerprint, log.fingerprint = some value
  errorGroupId : ∀ value ∈ query.errorGroupId, ∃ id ∈ log.errorGroupId, (id : Int) = value
  fromTimestamp : ∀ value ∈ query.fromTimestamp, value ≤ log.timestamp
  toTimestamp : ∀ value ∈ query.toTimestamp, log.timestamp ≤ value
  text : ∀ value ∈ query.text, ∃ column ∈ log.searched t,
    ilike (searchPattern value) column = true

structure ErrorGroupListQuery.Accepts (query : ErrorGroupListQuery) (group : ErrorGroup) :
    Prop where
  service : ∀ value ∈ query.service, group.serviceName = value
  environment : ∀ value ∈ query.environment, group.environment = value
  status : ∀ value ∈ query.status, group.status = value
  severity : ∀ value ∈ query.severity, group.severity = value
  assignedTo : ∀ value ∈ query.assignedTo, ∃ id ∈ group.assignedTo, (id : Int) = value
  fromTimestamp : ∀ value ∈ query.fromTimestamp, value ≤ group.lastSeen
  toTimestamp : ∀ value ∈ query.toTimestamp, group.firstSeen ≤ value
  text : ∀ value ∈ query.text, ∃ column ∈ group.searched,
    ilike (searchPattern value) column = true

omit [Platform] [Collation] in
theorem condition_true {α β : Type} (filter : Option α) (holds : α → β → Bool)
    (column : Option β) : (∀ t ∈ condition filter holds column, t = some true) ↔
      ∀ value ∈ filter, ∃ c ∈ column, holds value c = true := by
  cases filter <;> cases column <;> simp [condition]

/-- A text filter is true where some column that is not NULL matches. -/
theorem search_true (text : Option Str) (columns : List (Option Str)) :
    (∀ t ∈ (text.map fun text =>
        disjunction (columns.map (ilikeTruth (searchPattern text)))).toList, t = some true) ↔
      ∀ value ∈ text, ∃ column ∈ columns.flatMap Option.toList,
        ilike (searchPattern value) column = true := by
  cases text with
  | none => simp
  | some text =>
    simp only [Option.map_some, Option.toList_some, List.mem_singleton, forall_eq,
      Option.mem_some, forall_eq', disjunction_true, List.mem_map, List.mem_flatMap,
      Option.mem_toList]
    constructor
    · rintro ⟨column, mem, matched⟩
      obtain ⟨c, found, matched⟩ := Option.map_eq_some_iff.mp matched
      exact ⟨c, ⟨column, mem, found⟩, matched⟩
    · rintro ⟨c, ⟨column, mem, found⟩, matched⟩
      exact ⟨column, mem, Option.map_eq_some_iff.mpr ⟨c, found, matched⟩⟩

theorem LogListQuery.conditions_true (query : LogListQuery) (t : LogTables) (log : Log) :
    conjunction (query.conditions (log, t.groupOf log)) = some true ↔ query.Accepts t log := by
  have search := search_true query.text [some log.message, some log.normalizedMessage,
    log.stackTrace, log.fingerprint, (t.groupOf log).map (·.title),
    (t.groupOf log).map (·.fingerprint)]
  simp only [List.map_cons, List.map_nil] at search
  rw [conjunction_true]
  simp only [LogListQuery.conditions, List.forall_mem_append, condition_true, search]
  constructor
  · rintro ⟨⟨⟨⟨⟨⟨⟨service, environment⟩, level⟩, fingerprint⟩, errorGroupId⟩, fromTimestamp⟩,
      toTimestamp⟩, text⟩
    exact {
      service := by simpa using service
      environment := by simpa using environment
      level := by simpa using level
      fingerprint := by simpa using fingerprint
      errorGroupId := by simpa using errorGroupId
      fromTimestamp := by simpa using fromTimestamp
      toTimestamp := by simpa using toTimestamp
      text := by simpa [Log.searched] using text }
  · intro accepts
    refine ⟨⟨⟨⟨⟨⟨⟨?_, ?_⟩, ?_⟩, ?_⟩, ?_⟩, ?_⟩, ?_⟩, ?_⟩
    · simpa using accepts.service
    · simpa using accepts.environment
    · simpa using accepts.level
    · simpa using accepts.fingerprint
    · simpa using accepts.errorGroupId
    · simpa using accepts.fromTimestamp
    · simpa using accepts.toTimestamp
    · simpa [Log.searched] using accepts.text

theorem ErrorGroupListQuery.conditions_true (query : ErrorGroupListQuery) (group : ErrorGroup) :
    conjunction (query.conditions group) = some true ↔ query.Accepts group := by
  have search := search_true query.text [some group.title, some group.fingerprint,
    group.exceptionType, some group.serviceName]
  simp only [List.map_cons, List.map_nil] at search
  rw [conjunction_true]
  simp only [ErrorGroupListQuery.conditions, List.forall_mem_append, condition_true, search]
  constructor
  · rintro ⟨⟨⟨⟨⟨⟨⟨service, environment⟩, status⟩, severity⟩, assignedTo⟩, fromTimestamp⟩,
      toTimestamp⟩, text⟩
    exact {
      service := by simpa using service
      environment := by simpa using environment
      status := by simpa using status
      severity := by simpa using severity
      assignedTo := by simpa using assignedTo
      fromTimestamp := by simpa using fromTimestamp
      toTimestamp := by simpa using toTimestamp
      text := by simpa [ErrorGroup.searched] using text }
  · intro accepts
    refine ⟨⟨⟨⟨⟨⟨⟨?_, ?_⟩, ?_⟩, ?_⟩, ?_⟩, ?_⟩, ?_⟩, ?_⟩
    · simpa using accepts.service
    · simpa using accepts.environment
    · simpa using accepts.status
    · simpa using accepts.severity
    · simpa using accepts.assignedTo
    · simpa using accepts.fromTimestamp
    · simpa using accepts.toTimestamp
    · simpa [ErrorGroup.searched] using accepts.text

omit [Platform] [Collation] in
/-- The join binds every log to its own group, or to none. -/
theorem join_groupOf {t : LogTables} (keys : t.PrimaryKeys) :
    leftJoin (fun (log : Log) (group : ErrorGroup) =>
        log.errorGroupId.map fun id => decide (id = group.id)) t.logs t.errorGroups =
      t.logs.map fun log => (log, t.groupOf log) := by
  have partners (log : Log) : filterRows (fun group : ErrorGroup =>
      log.errorGroupId.map fun id => decide (id = group.id)) t.errorGroups =
        (t.groupOf log).toList := by
    unfold filterRows LogTables.groupOf
    cases log.errorGroupId with
    | none => simp
    | some id =>
      simp only [Option.map_some, Option.some.injEq, decide_eq_true_eq, Option.bind_some,
        eq_comm (a := id)]
      exact filter_key_eq_find? keys.errorGroups id
  rw [leftJoin_eq _ _ _ fun log _ => by rw [partners]; cases t.groupOf log <;> simp]
  refine List.map_congr_left fun log _ => ?_
  rw [partners, Option.head?_toList]

theorem LogListQuery.buildQuery_eq (query : LogListQuery) {t : LogTables} (keys : t.PrimaryKeys) :
    query.buildQuery t = t.logs.filter fun log =>
      conjunction (query.conditions (log, t.groupOf log)) = some true := by
  rw [LogListQuery.buildQuery, join_groupOf keys, filterRows, List.filter_map, List.map_map]
  exact List.map_id _

theorem LogListQuery.mem_buildQuery (query : LogListQuery) {t : LogTables} (keys : t.PrimaryKeys)
    (log : Log) : log ∈ query.buildQuery t ↔ log ∈ t.logs ∧ query.Accepts t log := by
  rw [query.buildQuery_eq keys, List.mem_filter, decide_eq_true_eq, query.conditions_true]

theorem ErrorGroupListQuery.mem_buildQuery (query : ErrorGroupListQuery) (t : LogTables)
    (group : ErrorGroup) :
    group ∈ query.buildQuery t ↔ group ∈ t.errorGroups ∧ query.Accepts group := by
  rw [ErrorGroupListQuery.buildQuery, filterRows, List.mem_filter, decide_eq_true_eq,
    query.conditions_true]

end Meaning

section Paging

/-- The query for the page behind `k` others. -/
def LogListQuery.behind (query : LogListQuery) (k : Nat) : LogListQuery :=
  { query with page := k + 1, page_pos := k.succ_pos }

def ErrorGroupListQuery.behind (query : ErrorGroupListQuery) (k : Nat) : ErrorGroupListQuery :=
  { query with page := k + 1, page_pos := k.succ_pos }

/-- The responses to the pages, `respond k` for the page behind `k` others, cut `rows`. -/
structure Paged {α : Type} (rows : List α) (pageSize : Nat) (respond : Nat → ListResponse α) :
    Prop where
  totalItems : ∀ k, (respond k).pagination.totalItems = rows.length
  totalPages : ∀ k, (respond k).pagination.totalPages = ⌈(rows.length : ℚ) / pageSize⌉₊
  pages : ((List.range ⌈(rows.length : ℚ) / pageSize⌉₊).flatMap fun k => (respond k).items) = rows
  beyond : ∀ k ≥ ⌈(rows.length : ℚ) / pageSize⌉₊, (respond k).items = []

/-- The first `n` pages are answered, and cut `rows` with the pages behind them. -/
def PagedThrough {α : Type} (rows : List α) (pageSize n : Nat)
    (respond : Nat → Except Raised (ListResponse α)) : Prop :=
  ∃ responses, Paged rows pageSize responses ∧ ∀ k < n, respond k = .ok (responses k)

/-- The response that holds one page of `rows`. -/
def pageOf {α : Type} (page pageSize : Nat) (rows : List α) : ListResponse α where
  items := slice page pageSize rows
  pagination := ⟨page, pageSize, rows.length, pageCount rows.length pageSize⟩

theorem pageOf_paged {α : Type} (rows : List α) {pageSize : Nat} (positive : 1 ≤ pageSize) :
    Paged rows pageSize fun k => pageOf (k + 1) pageSize rows where
  totalItems _ := rfl
  totalPages _ := pageCount_eq_ceil _ positive
  pages := by
    rw [← pageCount_eq_ceil _ positive]
    exact flatMap_slice positive rows
  beyond k passed := by
    rw [← pageCount_eq_ceil _ positive] at passed
    exact slice_beyond positive (by omega)

/-- A page is answered where the database takes the filters and the offset. -/
theorem paginate_ok {α : Type} {parameters : List Parameter} (few : parameters.length ≤ 20)
    {pageSize : Nat} (most : pageSize ≤ 100) (k : Nat) (stmt : List α) (response : ListResponse α) :
    paginate parameters (k + 1) pageSize stmt = .ok response ↔
      ((∀ p ∈ parameters, p.Fits) ∧ k * pageSize < 2 ^ 63) ∧
        pageOf (k + 1) pageSize stmt = response := by
  have filters : Bindable parameters ↔ ∀ p ∈ parameters, p.Fits :=
    and_iff_right (few.trans (by decide))
  have paged : Bindable (parameters ++ [.bigint pageSize, .bigint (k * pageSize : Nat)]) ↔
      (∀ p ∈ parameters, p.Fits) ∧ k * pageSize < 2 ^ 63 := by
    exact bindable_append_bigint ((Nat.add_le_add_right few 2).trans (by decide))
      (most.trans_lt (by decide)) _
  rw [paginate, execute_bind_ok, execute_bind_ok, Nat.add_sub_cancel, filters, paged]
  constructor
  · rintro ⟨-, taken, answered⟩
    exact ⟨taken, Except.ok.inj answered⟩
  · rintro ⟨taken, rfl⟩
    exact ⟨taken.1, taken, rfl⟩

variable [Platform] [Collation]

theorem LogListQuery.sorted (query : LogListQuery) {t : LogTables} (keys : t.PrimaryKeys) :
    (query.sortStatement (query.buildQuery t)).Pairwise
      (Precedes query.sortOrder query.sortBy.column Log.id) := by
  refine orderBy_pairwise _ _ _ ?_
  rw [query.buildQuery_eq keys]
  exact (List.filter_sublist.map Log.id).nodup keys.logs

theorem LogListQuery.mem_sorted (query : LogListQuery) {t : LogTables} (keys : t.PrimaryKeys)
    (log : Log) : log ∈ query.sortStatement (query.buildQuery t) ↔
      log ∈ t.logs ∧ query.Accepts t log := by
  rw [← query.mem_buildQuery keys]
  exact (orderBy_perm _ _ _ _).mem_iff

theorem ErrorGroupListQuery.sorted (query : ErrorGroupListQuery) {t : LogTables}
    (keys : t.PrimaryKeys) : (query.sortStatement (query.buildQuery t)).Pairwise
      (Precedes query.sortOrder query.sortBy.column ErrorGroup.id) :=
  orderBy_pairwise _ _ _ ((List.filter_sublist.map ErrorGroup.id).nodup keys.errorGroups)

theorem ErrorGroupListQuery.mem_sorted (query : ErrorGroupListQuery) (t : LogTables)
    (group : ErrorGroup) : group ∈ query.sortStatement (query.buildQuery t) ↔
      group ∈ t.errorGroups ∧ query.Accepts group := by
  rw [← query.mem_buildQuery]
  exact (orderBy_perm _ _ _ _).mem_iff

/-- The database takes every filter of the query. -/
structure LogListQuery.Fits (query : LogListQuery) : Prop where
  service : ∀ value ∈ query.service, NulFree value
  fingerprint : ∀ value ∈ query.fingerprint, NulFree value
  errorGroupId : ∀ value ∈ query.errorGroupId, -2 ^ 31 ≤ value ∧ value < 2 ^ 31
  fromTimestamp : ∀ value ∈ query.fromTimestamp, InDatetimeRange value
  toTimestamp : ∀ value ∈ query.toTimestamp, InDatetimeRange value
  text : ∀ value ∈ query.text, NulFree value

structure ErrorGroupListQuery.Fits (query : ErrorGroupListQuery) : Prop where
  service : ∀ value ∈ query.service, NulFree value
  assignedTo : ∀ value ∈ query.assignedTo, -2 ^ 31 ≤ value ∧ value < 2 ^ 31
  fromTimestamp : ∀ value ∈ query.fromTimestamp, InDatetimeRange value
  toTimestamp : ∀ value ∈ query.toTimestamp, InDatetimeRange value
  text : ∀ value ∈ query.text, NulFree value

omit [Collation] in
/-- U+0000 is no space that `strip` takes away. -/
theorem nulFree_searchPattern (text : Str) : NulFree (searchPattern text) ↔ NulFree text := by
  have keeps (s : Str) : '\x00' ∈ s.dropWhile Platform.isSpace ↔ '\x00' ∈ s := by
    induction s with
    | nil => rfl
    | cons c rest ih =>
      rw [List.dropWhile_cons]
      split
      · rename_i space
        have other : '\x00' ≠ c := by
          rintro rfl
          rw [Platform.isSpace_ascii _ (by decide)] at space
          cases space
        rw [ih, List.mem_cons, or_iff_right other]
      · rfl
  have inside : '\x00' ∈ searchPattern text ↔ '\x00' ∈ strip text := by
    simp [searchPattern]
  rw [NulFree, NulFree, inside, strip, List.mem_reverse, keeps, List.mem_reverse, keeps]

omit [Collation] in
theorem LogListQuery.fits_iff (query : LogListQuery) :
    (∀ p ∈ query.parameters, p.Fits) ↔ query.Fits := by
  simp only [LogListQuery.parameters, List.forall_mem_append, List.forall_mem_map,
    Option.mem_toList, List.mem_flatMap, forall_exists_index, and_imp, List.mem_replicate]
  constructor
  · rintro ⟨⟨⟨⟨⟨service, fingerprint⟩, errorGroupId⟩, fromTimestamp⟩, toTimestamp⟩, text⟩
    exact {
      service := service
      fingerprint := fingerprint
      errorGroupId := fun value present => (fitsBits_iff 31 value).mp (errorGroupId value present)
      fromTimestamp := fromTimestamp
      toTimestamp := toTimestamp
      text := fun value present =>
        (nulFree_searchPattern value).mp (text _ value present (by decide) rfl) }
  · intro fits
    refine ⟨⟨⟨⟨⟨fits.service, fits.fingerprint⟩, ?_⟩, fits.fromTimestamp⟩, fits.toTimestamp⟩, ?_⟩
    · exact fun value present => (fitsBits_iff 31 value).mpr (fits.errorGroupId value present)
    · rintro _ value present - rfl
      exact (nulFree_searchPattern value).mpr (fits.text value present)

omit [Collation] in
theorem ErrorGroupListQuery.fits_iff (query : ErrorGroupListQuery) :
    (∀ p ∈ query.parameters, p.Fits) ↔ query.Fits := by
  simp only [ErrorGroupListQuery.parameters, List.forall_mem_append, List.forall_mem_map,
    Option.mem_toList, List.mem_flatMap, forall_exists_index, and_imp, List.mem_replicate]
  constructor
  · rintro ⟨⟨⟨⟨service, assignedTo⟩, fromTimestamp⟩, toTimestamp⟩, text⟩
    exact {
      service := service
      assignedTo := fun value present => (fitsBits_iff 31 value).mp (assignedTo value present)
      fromTimestamp := fromTimestamp
      toTimestamp := toTimestamp
      text := fun value present =>
        (nulFree_searchPattern value).mp (text _ value present (by decide) rfl) }
  · intro fits
    refine ⟨⟨⟨⟨fits.service, ?_⟩, fits.fromTimestamp⟩, fits.toTimestamp⟩, ?_⟩
    · exact fun value present => (fitsBits_iff 31 value).mpr (fits.assignedTo value present)
    · rintro _ value present - rfl
      exact (nulFree_searchPattern value).mpr (fits.text value present)

omit [Collation] in
/-- A text filter is bound once for each column that it searches. -/
theorem length_patterns (columns : Nat) (text : Option Str) :
    (text.toList.flatMap fun text =>
      List.replicate columns (Parameter.text (searchPattern text))).length ≤ columns := by
  cases text <;> simp

theorem LogListQuery.listLogs_ok (query : LogListQuery) (t : LogTables) (k : Nat)
    (response : ListResponse Log) : listLogs (query.behind k) t = .ok response ↔
      (query.Fits ∧ k * query.pageSize < 2 ^ 63) ∧
        pageOf (k + 1) query.pageSize (query.sortStatement (query.buildQuery t)) = response := by
  have few : query.parameters.length ≤ 20 := by
    have service := Option.length_toList_le (o := query.service)
    have fingerprint := Option.length_toList_le (o := query.fingerprint)
    have errorGroupId := Option.length_toList_le (o := query.errorGroupId)
    have fromTimestamp := Option.length_toList_le (o := query.fromTimestamp)
    have toTimestamp := Option.length_toList_le (o := query.toTimestamp)
    have text := length_patterns 6 query.text
    simp only [LogListQuery.parameters, List.length_append, List.length_map]
    omega
  rw [← query.fits_iff]
  exact paginate_ok few query.pageSize_range.2 k _ response

theorem ErrorGroupListQuery.listErrorGroups_ok (query : ErrorGroupListQuery) (t : LogTables)
    (k : Nat) (response : ListResponse ErrorGroup) :
    listErrorGroups (query.behind k) t = .ok response ↔
      (query.Fits ∧ k * query.pageSize < 2 ^ 63) ∧
        pageOf (k + 1) query.pageSize (query.sortStatement (query.buildQuery t)) = response := by
  have few : query.parameters.length ≤ 20 := by
    have service := Option.length_toList_le (o := query.service)
    have assignedTo := Option.length_toList_le (o := query.assignedTo)
    have fromTimestamp := Option.length_toList_le (o := query.fromTimestamp)
    have toTimestamp := Option.length_toList_le (o := query.toTimestamp)
    have text := length_patterns 4 query.text
    simp only [ErrorGroupListQuery.parameters, List.length_append, List.length_map]
    omega
  rw [← query.fits_iff]
  exact paginate_ok few query.pageSize_range.2 k _ response

omit [Platform] [Collation] in
/-- Pages answered under a condition, each with its part of the rows. -/
theorem pagedThrough_iff {α : Type} {rows : List α} {pageSize n : Nat} (positive : 1 ≤ pageSize)
    (some : 1 ≤ n) {fits : Prop} {respond : Nat → Except Raised (ListResponse α)}
    (ok : ∀ k response, respond k = .ok response ↔
      (fits ∧ k * pageSize < 2 ^ 63) ∧ pageOf (k + 1) pageSize rows = response) :
    (fits ∧ (n - 1) * pageSize < 2 ^ 63 → PagedThrough rows pageSize n respond) ∧
      ∀ rows', PagedThrough rows' pageSize n respond → fits ∧ (n - 1) * pageSize < 2 ^ 63 := by
  constructor
  · rintro ⟨holds, last⟩
    refine ⟨_, pageOf_paged rows positive, fun k before => (ok k _).mpr ⟨⟨holds, ?_⟩, rfl⟩⟩
    exact (Nat.mul_le_mul_right pageSize (by omega)).trans_lt last
  · rintro rows' ⟨responses, -, answered⟩
    exact ((ok (n - 1) _).mp (answered (n - 1) (by omega))).1

/-- The pages up to the one asked for are, one after the other, the rows that pass all filters,
each once and in the order of the query; and no page beyond them holds any. -/
def LogListQuery.PagesExactly (query : LogListQuery) (t : LogTables) : Prop :=
  ∃ rows : List Log, rows.Nodup ∧ (∀ log, log ∈ rows ↔ log ∈ t.logs ∧ query.Accepts t log) ∧
    rows.Pairwise (Precedes query.sortOrder query.sortBy.column Log.id) ∧
    PagedThrough rows query.pageSize query.page fun k => listLogs (query.behind k) t

def ErrorGroupListQuery.PagesExactly (query : ErrorGroupListQuery) (t : LogTables) : Prop :=
  ∃ rows : List ErrorGroup,
    rows.Nodup ∧ (∀ group, group ∈ rows ↔ group ∈ t.errorGroups ∧ query.Accepts group) ∧
    rows.Pairwise (Precedes query.sortOrder query.sortBy.column ErrorGroup.id) ∧
    PagedThrough rows query.pageSize query.page fun k => listErrorGroups (query.behind k) t

/-- The pages of a query are exact exactly when the database takes its filters and its offset. -/
theorem pagination_exact_iff (t : LogTables) (keys : t.PrimaryKeys) :
    (∀ query : LogListQuery, query.PagesExactly t ↔
      query.Fits ∧ (query.page - 1) * query.pageSize < 2 ^ 63) ∧
    (∀ query : ErrorGroupListQuery, query.PagesExactly t ↔
      query.Fits ∧ (query.page - 1) * query.pageSize < 2 ^ 63) := by
  constructor
  · intro query
    have sorted := query.sorted keys
    have pages := pagedThrough_iff query.pageSize_range.1 query.page_pos (query.listLogs_ok t)
    constructor
    · rintro ⟨rows, -, -, -, through⟩
      exact pages.2 rows through
    · exact fun fits => ⟨_, nodup_of_precedes sorted, query.mem_sorted keys, sorted, pages.1 fits⟩
  · intro query
    have sorted := query.sorted keys
    have pages := pagedThrough_iff query.pageSize_range.1 query.page_pos
      (query.listErrorGroups_ok t)
    constructor
    · rintro ⟨rows, -, -, -, through⟩
      exact pages.2 rows through
    · exact fun fits => ⟨_, nodup_of_precedes sorted, query.mem_sorted t, sorted, pages.1 fits⟩

end Paging

/-- Only the ASCII letters have a lower case. -/
@[reducible] def asciiCollation : Collation where
  lower := Char.toLower
  lower_ascii _ _ := rfl
  lower_special c special := by
    unfold Char.toLower at special ⊢
    split
    · rename_i upper
      rw [dif_pos upper] at special
      obtain ⟨least, most⟩ := upper
      rw [ge_iff_le, UInt32.le_iff_toNat_le] at least
      rw [UInt32.le_iff_toNat_le] at most
      -- the letter is behind every special character
      have beyond : 97 ≤ (c.val + ('a'.val - 'A'.val)).toNat := by
        rw [UInt32.toNat_add]
        change 97 ≤ (c.val.toNat + 32) % 4294967296
        change 65 ≤ c.val.toNat at least
        change c.val.toNat ≤ 90 at most
        omega
      rcases special with h | h | h <;> rw [Char.ext_iff] at h <;> dsimp only at h <;>
        rw [h] at beyond <;> exact absurd beyond (by decide)
    · rfl

/-- One log with a message, in no group, and a group with a title. -/
def rowsWith (text : Str) : LogTables where
  logs := [{
    id := 1
    serviceName := ['s']
    environment := .production
    logLevel := .info
    message := text
    normalizedMessage := text
    exceptionType := none
    stackTrace := none
    metadata := .obj []
    fingerprint := none
    errorGroupId := none
    timestamp := 0
    createdAt := 0 }]
  errorGroups := [{
    id := 1
    fingerprint := []
    title := text
    serviceName := []
    environment := .production
    exceptionType := none
    firstSeen := 0
    lastSeen := 0
    occurrenceCount := 1
    status := .unresolved
    severity := .high
    assignedTo := none
    createdAt := 0 }]
  nextLogId := 2
  nextGroupId := 2

theorem rowsWith_keys (text : Str) : (rowsWith text).PrimaryKeys :=
  ⟨List.nodup_singleton _, List.nodup_singleton _⟩

theorem pagination_exact_rowsWith :
    letI := asciiPlatform
    letI := asciiCollation
    ({} : LogListQuery).PagesExactly (rowsWith ['a']) :=
  letI := asciiPlatform
  letI := asciiCollation
  ((pagination_exact_iff (rowsWith ['a']) (rowsWith_keys _)).1 {}).mpr
    ⟨by constructor <;> rintro _ ⟨⟩, by decide⟩

/-- The id of a group that no `integer` holds makes the listing of no logs fail. -/
theorem pagination_fails :
    ¬ ∀ (_ : Platform) (_ : Collation) (t : LogTables), t.PrimaryKeys →
      ∀ query : LogListQuery, query.PagesExactly t := by
  intro exact
  let _ := asciiPlatform
  let _ := asciiCollation
  let query : LogListQuery := { errorGroupId := some 3000000000 }
  obtain ⟨-, -, -, -, responses, -, answered⟩ :=
    exact asciiPlatform asciiCollation {} ⟨List.nodup_nil, List.nodup_nil⟩ query
  obtain ⟨⟨fits, -⟩, -⟩ := (query.listLogs_ok {} 0 _).mp (answered 0 (by decide))
  exact absurd (fits.errorGroupId _ rfl).2 (by decide)

end LogLens
