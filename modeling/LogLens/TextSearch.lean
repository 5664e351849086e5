import LogLens.Listing

/-! The text filter of the two listings against a search for a substring. The
text of the user is put into a LIKE pattern as it is. -/

namespace LogLens
open SqlQuery LikePattern

section Search
variable [Platform] [Collation]

/-- The stripped text occurs in the column, whatever the case of the letters. -/
def Contains (text column : Str) : Prop :=
  (strip text).map Collation.lower <:+: column.map Collation.lower

instance (text column : Str) : Decidable (Contains text column) :=
  inferInstanceAs (Decidable (_ <:+: _))

/-- The items of all pages, of which the first one tells the number. -/
def allItems {α : Type} (respond : Nat → Except Raised (ListResponse α)) :
    Except Raised (List α) := do
  let first ← respond 0
  let pages ← (List.range first.pagination.totalPages).mapM respond
  return pages.flatMap ListResponse.items

def LogListQuery.listed (query : LogListQuery) (t : LogTables) : Except Raised (List Log) :=
  allItems fun k => listLogs (query.behind k) t

def ErrorGroupListQuery.listed (query : ErrorGroupListQuery) (t : LogTables) :
    Except Raised (List ErrorGroup) :=
  allItems fun k => listErrorGroups (query.behind k) t

/-- Tables whose keys are of the type `integer`. -/
structure LogTables.Stored (t : LogTables) : Prop extends t.PrimaryKeys where
  logIds : ∀ log ∈ t.logs, log.id < 2 ^ 31
  groupIds : ∀ group ∈ t.errorGroups, group.id < 2 ^ 31

/-- No filter is set but the text. -/
structure LogListQuery.OnlyText (query : LogListQuery) (text : Str) : Prop where
  service : query.service = none
  environment : query.environment = none
  level : query.level = none
  fingerprint : query.fingerprint = none
  errorGroupId : query.errorGroupId = none
  fromTimestamp : query.fromTimestamp = none
  toTimestamp : query.toTimestamp = none
  text : query.text = some text

structure ErrorGroupListQuery.OnlyText (query : ErrorGroupListQuery) (text : Str) : Prop where
  service : query.service = none
  environment : query.environment = none
  status : query.status = none
  severity : query.severity = none
  assignedTo : query.assignedTo = none
  fromTimestamp : query.fromTimestamp = none
  toTimestamp : query.toTimestamp = none
  text : query.text = some text

/-- What a listing should return: every row that holds, once. -/
def FindsExactly {α : Type} (listed : Except Raised (List α)) (rows : List α)
    (holds : α → Prop) : Prop :=
  ∃ items, listed = .ok items ∧ items.Nodup ∧ ∀ row, row ∈ items ↔ row ∈ rows ∧ holds row

omit [Platform] [Collation] in
theorem rowsWith_stored (text : Str) : (rowsWith text).Stored where
  toPrimaryKeys := rowsWith_keys text
  logIds := List.forall_mem_singleton.mpr (Nat.one_lt_two_pow (by decide))
  groupIds := List.forall_mem_singleton.mpr (Nat.one_lt_two_pow (by decide))

omit [Platform] in
theorem lower_special (c : Char) (special : IsSpecial c) : Collation.lower c = c := by
  rcases special with rfl | rfl | rfl
  · exact Collation.lower_ascii _ (by decide)
  · exact Collation.lower_ascii _ (by decide)
  · exact Collation.lower_ascii _ (by decide)

theorem searchPattern_lower (text : Str) : (searchPattern text).map Collation.lower =
    '%' :: (strip text).map Collation.lower ++ ['%'] := by
  have any : Collation.lower '%' = '%' := lower_special _ (.inl rfl)
  simp [searchPattern, any]

omit [Platform] in
theorem plain_lower (text : Str) : Plain (text.map Collation.lower) ↔ Plain text :=
  plain_map lower_special Collation.lower_special text

theorem ilike_iff_contains {text : Str} (plain : Plain (strip text)) (column : Str) :
    ilike (searchPattern text) column = true ↔ Contains text column := by
  rw [ilike, searchPattern_lower]
  exact like_contains ((plain_lower _).mpr plain) _

omit [Platform] in
theorem sample_lower (text : Str) :
    sample (text.map Collation.lower) = (sample text).map Collation.lower :=
  sample_map lower_special Collation.lower_special (Collation.lower_ascii 'x' (by decide)) text

theorem ilike_sample (text : Str) :
    ilike (searchPattern text) (sample (strip text)) = true := by
  rw [ilike, searchPattern_lower, ← sample_lower]
  exact (like_any _ _).mpr ⟨_, List.suffix_refl _, like_sample _⟩

theorem plain_of_contains_sample {text : Str} (inside : Contains text (sample (strip text))) :
    Plain (strip text) := by
  rw [Contains, ← sample_lower] at inside
  exact (plain_lower _).mp (plain_of_sample (inside.eq_of_length_le (length_sample _)).symm)

omit [Platform] [Collation] in
theorem mapM_ok {α β ε : Type} {f : α → Except ε β} {value : α → β} (xs : List α)
    (ok : ∀ x ∈ xs, f x = .ok (value x)) : xs.mapM f = .ok (xs.map value) := by
  induction xs with
  | nil => rfl
  | cons x xs ih =>
    rw [List.forall_mem_cons] at ok
    rw [List.mapM_cons, ok.1, ih ok.2]
    rfl

omit [Platform] [Collation] in
/-- All pages of the rows are answered, as the offset of the last one is in range. -/
theorem allItems_ok {α : Type} {respond : Nat → Except Raised (ListResponse α)} {rows : List α}
    {pageSize : Nat} (positive : 1 ≤ pageSize) (few : rows.length < 2 ^ 63)
    (answered : ∀ k, k * pageSize < 2 ^ 63 → respond k = .ok (pageOf (k + 1) pageSize rows)) :
    allItems respond = .ok rows := by
  have first : respond 0 = .ok (pageOf 1 pageSize rows) := answered 0 (by omega)
  have pages : (List.range (pageCount rows.length pageSize)).mapM respond =
      .ok ((List.range (pageCount rows.length pageSize)).map fun k =>
        pageOf (k + 1) pageSize rows) := by
    refine mapM_ok _ fun k here => answered k ?_
    have inside := (lt_pageCount_iff positive rows.length k).mp (List.mem_range.mp here)
    omega
  simp only [allItems, first]
  change ((List.range (pageCount rows.length pageSize)).mapM respond >>= _) = _
  rw [pages]
  change Except.ok (List.flatMap _ (List.map _ _)) = _
  rw [List.flatMap_map]
  exact congrArg Except.ok (flatMap_slice positive rows)

omit [Platform] [Collation] in
theorem allItems_first {α : Type} {respond : Nat → Except Raised (ListResponse α)} {items : List α}
    (read : allItems respond = .ok items) : ∃ first, respond 0 = .ok first := by
  cases answer : respond 0 with
  | ok first => exact ⟨first, rfl⟩
  | error e =>
    simp only [allItems, answer] at read
    cases read

omit [Platform] [Collation] in
/-- A table has no more rows than there are keys. -/
theorem length_le_of_keys {α : Type} {rows table : List α} (distinct : rows.Nodup)
    (inside : ∀ row ∈ rows, row ∈ table) {id : α → Nat} (keys : (table.map id).Nodup) {n : Nat}
    (stored : ∀ row ∈ table, id row < n) : rows.length ≤ n := by
  have table : (table.map id).Subperm (List.range n) :=
    List.subperm_of_subset keys fun key listed => by
      obtain ⟨row, here, rfl⟩ := List.mem_map.mp listed
      exact List.mem_range.mpr (stored row here)
  have most := table.length_le
  rw [List.length_map, List.length_range] at most
  exact (List.subperm_of_subset distinct inside).length_le.trans most

theorem LogListQuery.listed_finds (query : LogListQuery) {t : LogTables} (stored : t.Stored)
    (fits : query.Fits) : FindsExactly (query.listed t) t.logs (query.Accepts t) := by
  have keys := stored.toPrimaryKeys
  have distinct := nodup_of_precedes (query.sorted keys)
  have few : (query.sortStatement (query.buildQuery t)).length ≤ 2 ^ 31 :=
    length_le_of_keys distinct (fun log here => ((query.mem_sorted keys log).mp here).1) keys.logs
      stored.logIds
  refine ⟨_, allItems_ok query.pageSize_range.1 (few.trans_lt (by decide)) fun k offset => ?_,
    distinct, query.mem_sorted keys⟩
  exact (query.listLogs_ok t k _).mpr ⟨⟨fits, offset⟩, rfl⟩

theorem ErrorGroupListQuery.listed_finds (query : ErrorGroupListQuery) {t : LogTables}
    (stored : t.Stored) (fits : query.Fits) :
    FindsExactly (query.listed t) t.errorGroups query.Accepts := by
  have keys := stored.toPrimaryKeys
  have distinct := nodup_of_precedes (query.sorted keys)
  have few : (query.sortStatement (query.buildQuery t)).length ≤ 2 ^ 31 :=
    length_le_of_keys distinct (fun group here => ((query.mem_sorted t group).mp here).1)
      keys.errorGroups stored.groupIds
  refine ⟨_, allItems_ok query.pageSize_range.1 (few.trans_lt (by decide)) fun k offset => ?_,
    distinct, query.mem_sorted t⟩
  exact (query.listErrorGroups_ok t k _).mpr ⟨⟨fits, offset⟩, rfl⟩

theorem LogListQuery.fits_of_listed (query : LogListQuery) {t : LogTables} {items : List Log}
    (read : query.listed t = .ok items) : query.Fits := by
  obtain ⟨first, answered⟩ := allItems_first read
  exact ((query.listLogs_ok t 0 first).mp answered).1.1

theorem ErrorGroupListQuery.fits_of_listed (query : ErrorGroupListQuery) {t : LogTables}
    {items : List ErrorGroup} (read : query.listed t = .ok items) : query.Fits := by
  obtain ⟨first, answered⟩ := allItems_first read
  exact ((query.listErrorGroups_ok t 0 first).mp answered).1.1

omit [Platform] [Collation] in
theorem LogListQuery.OnlyText.fits_iff {query : LogListQuery} {text : Str}
    (only : query.OnlyText text) : query.Fits ↔ NulFree text := by
  constructor
  · exact fun fits => fits.text text only.text
  · intro nulFree
    constructor
    · simp [only.service]
    · simp [only.fingerprint]
    · simp [only.errorGroupId]
    · simp [only.fromTimestamp]
    · simp [only.toTimestamp]
    · simpa [only.text] using nulFree

omit [Platform] [Collation] in
theorem ErrorGroupListQuery.OnlyText.fits_iff {query : ErrorGroupListQuery} {text : Str}
    (only : query.OnlyText text) : query.Fits ↔ NulFree text := by
  constructor
  · exact fun fits => fits.text text only.text
  · intro nulFree
    constructor
    · simp [only.service]
    · simp [only.assignedTo]
    · simp [only.fromTimestamp]
    · simp [only.toTimestamp]
    · simpa [only.text] using nulFree

theorem LogListQuery.OnlyText.accepts {query : LogListQuery} {text : Str}
    (only : query.OnlyText text) (t : LogTables) (log : Log) : query.Accepts t log ↔
      ∃ column ∈ log.searched t, ilike (searchPattern text) column = true := by
  constructor
  · exact fun accepts => accepts.text text only.text
  · intro found
    constructor
    · simp [only.service]
    · simp [only.environment]
    · simp [only.level]
    · simp [only.fingerprint]
    · simp [only.errorGroupId]
    · simp [only.fromTimestamp]
    · simp [only.toTimestamp]
    · simpa [only.text] using found

theorem ErrorGroupListQuery.OnlyText.accepts {query : ErrorGroupListQuery} {text : Str}
    (only : query.OnlyText text) (group : ErrorGroup) : query.Accepts group ↔
      ∃ column ∈ group.searched, ilike (searchPattern text) column = true := by
  constructor
  · exact fun accepts => accepts.text text only.text
  · intro found
    constructor
    · simp [only.service]
    · simp [only.environment]
    · simp [only.status]
    · simp [only.severity]
    · simp [only.assignedTo]
    · simp [only.fromTimestamp]
    · simp [only.toTimestamp]
    · simpa [only.text] using found

/-- A text without special characters is searched as a substring. -/
theorem search_of_plain {text : Str} (plain : Plain (strip text)) {α : Type}
    {listed : Except Raised (List α)} {rows : List α} {searched : α → List Str}
    (finds : FindsExactly listed rows fun row =>
      ∃ column ∈ searched row, ilike (searchPattern text) column = true) :
    FindsExactly listed rows fun row => ∃ column ∈ searched row, Contains text column := by
  simpa only [ilike_iff_contains plain] using finds

/-- A row whose columns are the sample of a text and empty texts is found, and contains
the text only if that has no special characters. -/
theorem plain_of_search {text : Str} {α : Type} {listed : Except Raised (List α)} {rows : List α}
    {searched : α → List Str}
    (finds : FindsExactly listed rows fun row =>
      ∃ column ∈ searched row, ilike (searchPattern text) column = true)
    (exact : FindsExactly listed rows fun row => ∃ column ∈ searched row, Contains text column)
    {row : α} (here : row ∈ rows) (own : sample (strip text) ∈ searched row)
    (others : ∀ column ∈ searched row, column = sample (strip text) ∨ column = []) :
    Plain (strip text) := by
  obtain ⟨items, read, -, finds⟩ := finds
  obtain ⟨items', read', -, exact⟩ := exact
  obtain rfl : items = items' := Except.ok.inj (read.symm.trans read')
  have found := (finds row).mpr ⟨here, _, own, ilike_sample text⟩
  obtain ⟨-, column, mem, inside⟩ := (exact row).mp found
  obtain rfl | rfl := others column mem
  · exact plain_of_contains_sample inside
  · have nothing : strip text = [] := by simpa [Contains] using inside
    rw [nothing]
    exact fun _ hc => absurd hc List.not_mem_nil

/-- A text filter alone returns the rows that contain the stripped text, from any
tables, exactly when that text holds no `%`, no `_`, no backslash and no U+0000. -/
theorem text_search_iff (text : Str) :
    ((∀ t : LogTables, t.Stored → ∀ query : LogListQuery, query.OnlyText text →
      FindsExactly (query.listed t) t.logs fun log =>
        ∃ column ∈ log.searched t, Contains text column) ↔ Plain (strip text) ∧ NulFree text) ∧
    ((∀ t : LogTables, t.Stored → ∀ query : ErrorGroupListQuery, query.OnlyText text →
      FindsExactly (query.listed t) t.errorGroups fun group =>
        ∃ column ∈ group.searched, Contains text column) ↔ Plain (strip text) ∧ NulFree text) := by
  have logs {t : LogTables} (stored : t.Stored) {query : LogListQuery}
      (only : query.OnlyText text) (nulFree : NulFree text) := by
    simpa only [funext (fun log => propext (only.accepts t log))] using
      query.listed_finds stored (only.fits_iff.mpr nulFree)
  have groups {t : LogTables} (stored : t.Stored) {query : ErrorGroupListQuery}
      (only : query.OnlyText text) (nulFree : NulFree text) := by
    simpa only [funext (fun group => propext (only.accepts group))] using
      query.listed_finds stored (only.fits_iff.mpr nulFree)
  constructor
  · constructor
    · intro exact
      have stored := rowsWith_stored (sample (strip text))
      have only : LogListQuery.OnlyText { text := some text } text := by constructor <;> rfl
      have found := exact _ stored _ only
      have nulFree := only.fits_iff.mp (LogListQuery.fits_of_listed _ found.choose_spec.1)
      refine ⟨plain_of_search (logs stored only nulFree) found (List.mem_singleton_self _)
        (List.mem_cons_self ..) ?_, nulFree⟩
      simp [Log.searched, rowsWith, LogTables.groupOf]
    · rintro ⟨plain, nulFree⟩ t stored query only
      exact search_of_plain plain (logs stored only nulFree)
  · constructor
    · intro exact
      have stored := rowsWith_stored (sample (strip text))
      have only : ErrorGroupListQuery.OnlyText { text := some text } text := by constructor <;> rfl
      have found := exact _ stored _ only
      have nulFree := only.fits_iff.mp (ErrorGroupListQuery.fits_of_listed _ found.choose_spec.1)
      refine ⟨plain_of_search (groups stored only nulFree) found (List.mem_singleton_self _)
        (List.mem_cons_self ..) ?_, nulFree⟩
      simp [ErrorGroup.searched]
    · rintro ⟨plain, nulFree⟩ t stored query only
      exact search_of_plain plain (groups stored only nulFree)

end Search

/-- The log of `rowsWith` reads `user id` and is found by a search for `user_id`. -/
theorem text_search_fails :
    ¬ ∀ (_ : Platform) (_ : Collation) (text : Str) (t : LogTables), t.Stored →
      ∀ query : LogListQuery, query.OnlyText text →
        FindsExactly (query.listed t) t.logs fun log =>
          ∃ column ∈ log.searched t, Contains text column := by
  intro exact
  let _ := asciiPlatform
  let _ := asciiCollation
  let query : LogListQuery := { text := some ['u', 's', 'e', 'r', '_', 'i', 'd'] }
  let t := rowsWith ['u', 's', 'e', 'r', ' ', 'i', 'd']
  have stored : t.Stored := rowsWith_stored _
  have only : query.OnlyText ['u', 's', 'e', 'r', '_', 'i', 'd'] := by constructor <;> rfl
  obtain ⟨items, read, -, finds⟩ := exact asciiPlatform asciiCollation _ t stored query only
  obtain ⟨items', read', -, finds'⟩ := query.listed_finds stored (query.fits_of_listed read)
  obtain rfl : items = items' := Except.ok.inj (read.symm.trans read')
  have one : ∀ log ∈ t.logs, (∃ column ∈ log.searched t,
      ilike (searchPattern ['u', 's', 'e', 'r', '_', 'i', 'd']) column = true) ∧
      ¬ ∃ column ∈ log.searched t, Contains ['u', 's', 'e', 'r', '_', 'i', 'd'] column := by
    decide
  obtain ⟨log, here⟩ : ∃ log, log ∈ t.logs := ⟨_, List.mem_singleton_self _⟩
  obtain ⟨matched, lacks⟩ := one log here
  have found := (finds' log).mpr ⟨here, (only.accepts t log).mpr matched⟩
  exact lacks ((finds log).mp found).2

end LogLens
