import Mathlib.Algebra.BigOperators.Group.List.Lemmas
import Mathlib.Data.List.Basic
import Mathlib.Data.List.Dedup
import Mathlib.Data.List.Nodup
import Mathlib.Data.Rat.Floor
import Mathlib.Order.Basic

/-! Queries over tables as lists of rows: three-valued conditions, the left outer
join, counts of groups, an order by a column and the row's id, and pages cut by LIMIT
and OFFSET. -/

namespace SqlQuery

section Truth

/-- A truth value of SQL; `none` is NULL. -/
abbrev Truth := Option Bool

def conjunction (ts : List Truth) : Truth :=
  if some false ∈ ts then some false else if none ∈ ts then none else some true

def disjunction (ts : List Truth) : Truth :=
  if some true ∈ ts then some true else if none ∈ ts then none else some false

theorem conjunction_true (ts : List Truth) :
    conjunction ts = some true ↔ ∀ t ∈ ts, t = some true := by
  unfold conjunction
  constructor
  · intro h t ht
    rcases t with _ | _ | _
    · simp [ht] at h
    · simp [ht] at h
    · rfl
  · intro all
    rw [if_neg fun h => by simpa using all _ h, if_neg fun h => by simpa using all _ h]

theorem disjunction_true (ts : List Truth) : disjunction ts = some true ↔ some true ∈ ts := by
  unfold disjunction
  split
  · simp_all
  · split <;> simp_all

variable {α β : Type*}

/-- A WHERE clause keeps the rows on which its condition is true. -/
def filterRows (condition : α → Truth) (rows : List α) : List α :=
  rows.filter fun row => condition row = some true

def leftJoin (on : α → β → Truth) (left : List α) (right : List β) : List (α × Option β) :=
  left.flatMap fun a =>
    let partners := filterRows (on a) right
    if partners.isEmpty then [(a, none)] else partners.map fun b => (a, some b)

/-- Where no row has two partners the join keeps every left row once, with its
partner when there is one. -/
theorem leftJoin_eq (on : α → β → Truth) (left : List α) (right : List β)
    (single : ∀ a ∈ left, (filterRows (on a) right).length ≤ 1) :
    leftJoin on left right = left.map fun a => (a, (filterRows (on a) right).head?) := by
  unfold leftJoin
  induction left with
  | nil => rfl
  | cons a rest ih =>
    rw [List.forall_mem_cons] at single
    rw [List.flatMap_cons, List.map_cons, ih single.2]
    cases partners : filterRows (on a) right with
    | nil => simp
    | cons b others =>
      have alone := single.1
      rw [partners, List.length_cons] at alone
      simp [List.length_eq_zero_iff.mp (by omega : others.length = 0)]

/-- A primary key names at most one row. -/
theorem filter_key_eq_find? {κ : Type*} [DecidableEq κ] {key : α → κ} {rows : List α}
    (keys : (rows.map key).Nodup) (k : κ) : (rows.filter fun row => key row = k) =
      (rows.find? fun row => key row = k).toList := by
  induction rows with
  | nil => rfl
  | cons row rest ih =>
    rw [List.map_cons, List.nodup_cons] at keys
    by_cases here : key row = k
    · have others : rest.filter (fun other => key other = k) = [] := by
        refine List.filter_eq_nil_iff.mpr fun other ho same => keys.1 ?_
        rw [here, ← of_decide_eq_true same]
        exact List.mem_map_of_mem ho
      simp [here, others]
    · simpa [here] using ih keys.2

end Truth

section Groups
variable {α β : Type*} [DecidableEq β]

/-- GROUP BY a column, with the count of every group. -/
def groupCounts (column : α → β) (rows : List α) : List (β × Nat) :=
  (rows.map column).dedup.map fun b => (b, (rows.map column).count b)

/-- The groups partition the rows. -/
theorem groupCounts_sum (column : α → β) (rows : List α) :
    ((groupCounts column rows).map (·.2)).sum = rows.length := by
  have counts := List.sum_map_count_dedup_eq_length (rows.map column)
  rw [List.length_map] at counts
  rw [groupCounts, List.map_map]
  exact counts

theorem groupCounts_nodup (column : α → β) (rows : List α) :
    ((groupCounts column rows).map (·.1)).Nodup := by
  have keys : (groupCounts column rows).map (·.1) = (rows.map column).dedup := by
    rw [groupCounts, List.map_map]
    exact List.map_id' _
  rw [keys]
  exact List.nodup_dedup _

/-- A group is a value that occurs, with the number of its rows. -/
theorem mem_groupCounts (column : α → β) (rows : List α) (b : β) (n : Nat) :
    (b, n) ∈ groupCounts column rows ↔ 0 < n ∧ (rows.map column).count b = n := by
  rw [groupCounts, List.mem_map]
  constructor
  · rintro ⟨b', here, same⟩
    obtain ⟨rfl, rfl⟩ := Prod.mk.injEq .. ▸ same
    exact ⟨List.count_pos_iff.mpr (List.mem_dedup.mp here), rfl⟩
  · rintro ⟨some, rfl⟩
    exact ⟨b, List.mem_dedup.mpr (List.count_pos_iff.mp some), rfl⟩

end Groups

section Order
variable {α : Type*}

inductive SortOrder
  | asc | desc
  deriving DecidableEq

/-- Strictly before in the order by a column and then by the id, in one direction. -/
def Precedes (order : SortOrder) (column : α → Int) (id : α → Nat) (a b : α) : Prop :=
  match order with
  | .asc => column a < column b ∨ (column a = column b ∧ id a < id b)
  | .desc => column b < column a ∨ (column a = column b ∧ id b < id a)

instance (order : SortOrder) (column : α → Int) (id : α → Nat) (a b : α) :
    Decidable (Precedes order column id a b) := by
  cases order
  · exact inferInstanceAs (Decidable (_ ∨ _))
  · exact inferInstanceAs (Decidable (_ ∨ _))

def orderBy (order : SortOrder) (column : α → Int) (id : α → Nat) (rows : List α) : List α :=
  rows.mergeSort fun a b => !decide (Precedes order column id b a)

theorem orderBy_perm (order : SortOrder) (column : α → Int) (id : α → Nat) (rows : List α) :
    (orderBy order column id rows).Perm rows := List.mergeSort_perm _ _

/-- Rows with different ids stand in a strict order. -/
theorem orderBy_pairwise (order : SortOrder) (column : α → Int) (id : α → Nat) {rows : List α}
    (keys : (rows.map id).Nodup) :
    (orderBy order column id rows).Pairwise (Precedes order column id) := by
  have sorted : (orderBy order column id rows).Pairwise fun a b =>
      !decide (Precedes order column id b a) := by
    refine List.pairwise_mergeSort (fun a b c => ?_) (fun a b => ?_) rows
    · simp only [Bool.not_eq_true', decide_eq_false_iff_not]
      cases order <;> simp only [Precedes] <;> omega
    · simp only [Bool.or_eq_true, Bool.not_eq_true', decide_eq_false_iff_not]
      cases order <;> simp only [Precedes] <;> omega
  have distinct : (orderBy order column id rows).Pairwise fun a b => id a ≠ id b :=
    List.pairwise_map.mp (((orderBy_perm order column id rows).map id).nodup_iff.mpr keys)
  refine (sorted.and distinct).imp fun {a b} both => ?_
  obtain ⟨notAfter, different⟩ := both
  rw [Bool.not_eq_true', decide_eq_false_iff_not] at notAfter
  cases order <;> simp only [Precedes] at notAfter ⊢ <;> omega

theorem nodup_of_precedes {order : SortOrder} {column : α → Int} {id : α → Nat} {rows : List α}
    (sorted : rows.Pairwise (Precedes order column id)) : rows.Nodup := by
  refine sorted.imp fun {a b} before same => ?_
  subst same
  cases order <;> simp only [Precedes] at before <;> omega

end Order

section Pages
variable {α : Type*}

/-- OFFSET and LIMIT of a page; pages count from 1. -/
def slice (page size : Nat) (rows : List α) : List α := (rows.drop ((page - 1) * size)).take size

/-- `ceil(total / size) if total else 0` -/
def pageCount (total size : Nat) : Nat := if total = 0 then 0 else (total + size - 1) / size

theorem lt_pageCount_iff {size : Nat} (positive : 1 ≤ size) (total k : Nat) :
    k < pageCount total size ↔ k * size < total := by
  unfold pageCount
  split
  · omega
  · rw [Nat.lt_iff_add_one_le, Nat.le_div_iff_mul_le positive, Nat.add_mul]
    omega

theorem pageCount_eq_ceil (total : Nat) {size : Nat} (positive : 1 ≤ size) :
    pageCount total size = ⌈(total : ℚ) / size⌉₊ := by
  refine eq_of_forall_lt_iff fun k => ?_
  have here : (0 : ℚ) < size := by exact_mod_cast positive
  rw [lt_pageCount_iff positive, Nat.lt_ceil, lt_div_iff₀ here]
  exact_mod_cast Iff.rfl

theorem slice_beyond {page size : Nat} (positive : 1 ≤ size) {rows : List α}
    (beyond : pageCount rows.length size < page) : slice page size rows = [] := by
  have passed := (not_congr (lt_pageCount_iff positive rows.length (page - 1))).mp (by omega)
  rw [slice, List.drop_eq_nil_of_le (by omega), List.take_nil]

/-- The pages up to some page are the rows up to its end. -/
theorem flatMap_slice_range (size count : Nat) (rows : List α) :
    ((List.range count).flatMap fun k => slice (k + 1) size rows) = rows.take (count * size) := by
  induction count with
  | zero => simp
  | succ count ih =>
    rw [List.range_succ, List.flatMap_append, ih, List.flatMap_singleton, slice,
      Nat.add_sub_cancel, Nat.add_mul, Nat.one_mul]
    exact List.take_add.symm

/-- The pages in their order make up the rows. -/
theorem flatMap_slice {size : Nat} (positive : 1 ≤ size) (rows : List α) :
    ((List.range (pageCount rows.length size)).flatMap fun k => slice (k + 1) size rows) =
      rows := by
  rw [flatMap_slice_range]
  refine List.take_of_length_le (Nat.le_of_not_lt fun short => ?_)
  exact absurd ((lt_pageCount_iff positive _ _).mpr short) (lt_irrefl _)

end Pages

end SqlQuery
