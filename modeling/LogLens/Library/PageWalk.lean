import LogLens.Library.SqlQuery
import Mathlib.Data.List.Perm.Subperm

/-! Walks through the pages of a table that changes between one page and the next. Whether a
row is seen, and how often, is a matter of its position at each page. -/

namespace SqlQuery

section Positions
variable {κ : Type*} [DecidableEq κ] {rows : List κ} {a : κ} {size : Nat}

/-- A page holds the rows whose positions fall on it. -/
theorem mem_slice_iff (distinct : rows.Nodup) (here : a ∈ rows) (k : Nat) :
    a ∈ slice (k + 1) size rows ↔ k * size ≤ rows.idxOf a ∧ rows.idxOf a < (k + 1) * size := by
  rw [slice, Nat.add_sub_cancel, Nat.succ_mul]
  have inside := List.idxOf_lt_length_of_mem here
  constructor
  · intro seen
    obtain ⟨j, within, same⟩ := List.mem_take_iff_getElem.mp seen
    rw [List.getElem_drop] at same
    rw [← same, distinct.idxOf_getElem]
    rw [List.length_drop] at within
    omega
  · rintro ⟨from', upTo⟩
    refine List.mem_take_iff_getElem.mpr ⟨rows.idxOf a - k * size, ?_, ?_⟩
    · rw [List.length_drop]
      omega
    · rw [List.getElem_drop]
      simp only [Nat.add_sub_cancel' from', List.getElem_idxOf]

omit [DecidableEq κ] in
theorem slice_nodup (distinct : rows.Nodup) (page : Nat) : (slice page size rows).Nodup :=
  ((List.take_sublist _ _).trans (List.drop_sublist _ _)).nodup distinct

omit [DecidableEq κ] in
/-- Behind a page that is not full there are no more rows. -/
theorem length_le_of_short {k : Nat} (short : (slice (k + 1) size rows).length < size) :
    rows.length ≤ (k + 1) * size := by
  rw [slice, Nat.add_sub_cancel, List.length_take, List.length_drop] at short
  rw [Nat.succ_mul]
  omega

theorem count_slice (distinct : rows.Nodup) (here : a ∈ rows) (k : Nat) :
    (slice (k + 1) size rows).count a =
      if k * size ≤ rows.idxOf a ∧ rows.idxOf a < (k + 1) * size then 1 else 0 := by
  rw [(slice_nodup distinct _).count]
  simp only [mem_slice_iff distinct here]

end Positions

section Walks
variable {α κ : Type*}

/-- The rows that a reader of the first `n` pages sees, `rows k` being the table at its turn
for the page behind `k` others. -/
def walk (size : Nat) (rows : Nat → List α) (n : Nat) : List α :=
  (List.range n).flatMap fun k => slice (k + 1) size (rows k)

theorem walk_succ (size : Nat) (rows : Nat → List α) (n : Nat) :
    walk size rows (n + 1) = walk size rows n ++ slice (n + 1) size (rows n) := by
  rw [walk, List.range_succ, List.flatMap_append, List.flatMap_singleton]
  rfl

theorem map_walk (column : α → κ) (size : Nat) (rows : Nat → List α) (n : Nat) :
    (walk size rows n).map column = walk size (fun k => (rows k).map column) n := by
  rw [walk, walk, List.map_flatMap]
  simp only [slice, List.map_take, List.map_drop]

variable [DecidableEq κ]

/-- How often the row, still to come behind a page, has come before its end at the next. -/
def pulled (size : Nat) (rows : Nat → List κ) (a : κ) (n : Nat) : Nat :=
  (List.range n).countP fun k =>
    (k + 1) * size ≤ (rows k).idxOf a ∧ (rows (k + 1)).idxOf a < (k + 1) * size

/-- How often the row, passed by a page, stands behind its end again at the next. -/
def pushed (size : Nat) (rows : Nat → List κ) (a : κ) (n : Nat) : Nat :=
  (List.range n).countP fun k =>
    (rows k).idxOf a < (k + 1) * size ∧ (k + 1) * size ≤ (rows (k + 1)).idxOf a

variable {size : Nat} {rows : Nat → List κ} {a : κ} {n : Nat}

theorem count_walk_open (distinct : ∀ k ≤ n, (rows k).Nodup) (here : ∀ k ≤ n, a ∈ rows k) :
    (walk size rows (n + 1)).count a + pulled size rows a n +
        (if (n + 1) * size ≤ (rows n).idxOf a then 1 else 0) =
      1 + pushed size rows a n := by
  induction n with
  | zero =>
    have page := @count_slice _ _ _ a size (distinct 0 le_rfl) (here 0 le_rfl) 0
    rw [walk_succ, List.count_append, page]
    simp only [walk, pulled, pushed, List.range_zero, List.flatMap_nil, List.countP_nil,
      List.count_nil, Nat.zero_mul, Nat.zero_le, true_and]
    split <;> split <;> omega
  | succ n ih =>
    have before := ih (fun k below => distinct k (below.trans n.le_succ))
      (fun k below => here k (below.trans n.le_succ))
    have page := @count_slice _ _ _ a size (distinct (n + 1) le_rfl) (here (n + 1) le_rfl) (n + 1)
    have turns (p : Nat → Prop) [DecidablePred p] : (List.range (n + 1)).countP (fun k => p k) =
        (List.range n).countP (fun k => p k) + if p n then 1 else 0 := by
      rw [List.range_succ, List.countP_append, List.countP_singleton]
      simp
    rw [walk_succ, List.count_append, page, pulled, pushed, turns, turns]
    rw [pulled, pushed] at before
    have ends : (n + 1 + 1) * size = (n + 1) * size + size := Nat.succ_mul _ _
    split at before <;> split <;> split <;> split <;> split <;> omega

/-- A row that stays in the table is seen once, and once more for each time it is pushed back
over the end of a page, less the times it is pulled over one. -/
theorem count_walk (distinct : ∀ k ≤ n, (rows k).Nodup) (here : ∀ k ≤ n, a ∈ rows k)
    (ended : (rows n).length ≤ (n + 1) * size) :
    (walk size rows (n + 1)).count a + pulled size rows a n = 1 + pushed size rows a n := by
  have both := @count_walk_open _ _ size _ _ _ distinct here
  have inside := List.idxOf_lt_length_of_mem (here n le_rfl)
  rwa [if_neg (by omega), Nat.add_zero] at both

/-- A walk to the end misses no row whose position only grows. -/
theorem mem_walk (distinct : ∀ k ≤ n, (rows k).Nodup) (here : ∀ k ≤ n, a ∈ rows k)
    (ended : (rows n).length ≤ (n + 1) * size)
    (later : ∀ k < n, (rows k).idxOf a ≤ (rows (k + 1)).idxOf a) :
    a ∈ walk size rows (n + 1) := by
  have both := count_walk distinct here ended
  have none : pulled size rows a n = 0 := by
    refine List.countP_eq_zero.mpr fun k hk => ?_
    have grows := later k (List.mem_range.mp hk)
    rw [decide_eq_true_eq]
    omega
  refine List.one_le_count_iff.mp ?_
  omega

/-- A walk through a table that loses rows, and brings the others forward at most, repeats none. -/
theorem walk_nodup (distinct : ∀ k < n, (rows k).Nodup)
    (fewer : ∀ k, k + 1 < n → ∀ a ∈ rows (k + 1),
      a ∈ rows k ∧ (rows (k + 1)).idxOf a ≤ (rows k).idxOf a) : (walk size rows n).Nodup := by
  have earlier {a : κ} {j k : Nat} (order : j ≤ k) (below : k < n) (here : a ∈ rows k) :
      a ∈ rows j ∧ (rows k).idxOf a ≤ (rows j).idxOf a := by
    induction k, order using Nat.le_induction with
    | base => exact ⟨here, le_rfl⟩
    | succ k _ ih =>
      obtain ⟨there, forward⟩ := fewer k below a here
      obtain ⟨first, ahead⟩ := ih (Nat.lt_of_succ_lt below) there
      exact ⟨first, forward.trans ahead⟩
  refine List.nodup_flatMap.mpr ⟨fun k hk => slice_nodup (distinct k (List.mem_range.mp hk)) _, ?_⟩
  refine List.pairwise_lt_range.imp_of_mem fun {j k} _ hk order => ?_
  intro a first again
  have below := List.mem_range.mp hk
  have here : a ∈ rows k := List.mem_of_mem_drop (List.mem_of_mem_take again)
  obtain ⟨there, forward⟩ := earlier order.le below here
  have passed := (mem_slice_iff (distinct j (order.trans below)) there j).mp first
  have ahead := (mem_slice_iff (distinct k below) here k).mp again
  have ends : (j + 1) * size ≤ k * size := Nat.mul_le_mul_right size order
  omega

end Walks

section Ordered
variable {α : Type*} {order : SortOrder} {column : α → Int} {id : α → Nat} {rows rows' : List α}

theorem Precedes.asymm {a b : α} (before : Precedes order column id a b) :
    ¬ Precedes order column id b a := by
  cases order <;> simp only [Precedes] at before ⊢ <;> omega

/-- The position of a row in its order is the number of the rows before it. -/
theorem idxOf_eq_length (keys : (rows.map id).Nodup)
    (sorted : rows.Pairwise (Precedes order column id)) {a : α} (here : a ∈ rows) :
    (rows.map id).idxOf (id a) = (rows.filter fun b => Precedes order column id b a).length := by
  induction rows with
  | nil => cases here
  | cons b rest ih =>
    rw [List.pairwise_cons] at sorted
    rw [List.map_cons, List.nodup_cons] at keys
    rw [List.map_cons, List.idxOf_cons]
    rcases List.mem_cons.mp here with rfl | later
    · have none : (a :: rest).filter (fun b => Precedes order column id b a) = [] := by
        refine List.filter_eq_nil_iff.mpr (List.forall_mem_cons.mpr ⟨?_, fun c hc => ?_⟩)
        · rw [decide_eq_true_eq]
          exact fun before => before.asymm before
        · rw [decide_eq_true_eq]
          exact (sorted.1 c hc).asymm
      rw [none, List.length_nil, beq_self_eq_true, cond_true]
    · have apart : (id b == id a) = false := by
        rw [beq_eq_false_iff_ne]
        exact fun same => keys.1 (same ▸ List.mem_map_of_mem later)
      have before : Precedes order column id b a := sorted.1 a later
      rw [apart, cond_false, ih keys.2 sorted.2 later, List.filter_cons,
        if_pos (decide_eq_true before), List.length_cons]

/-- Where no row is lost, and none changes in the column of the order, no row comes forward. -/
theorem idxOf_le (keys : (rows.map id).Nodup) (keys' : (rows'.map id).Nodup)
    (sorted : rows.Pairwise (Precedes order column id))
    (sorted' : rows'.Pairwise (Precedes order column id))
    (kept : ∀ b ∈ rows, ∃ b' ∈ rows', id b' = id b ∧ column b' = column b) {a : α}
    (here : a ∈ rows) : (rows.map id).idxOf (id a) ≤ (rows'.map id).idxOf (id a) := by
  obtain ⟨a', here', same, sameColumn⟩ := kept a here
  have within : (rows.filter fun b => Precedes order column id b a).map id ⊆
      (rows'.filter fun b => Precedes order column id b a').map id := by
    intro i hi
    obtain ⟨b, hb, rfl⟩ := List.mem_map.mp hi
    obtain ⟨mem, before⟩ := List.mem_filter.mp hb
    obtain ⟨b', mem', sameId, sameOrder⟩ := kept b mem
    refine List.mem_map.mpr ⟨b', List.mem_filter.mpr ⟨mem', ?_⟩, sameId⟩
    rw [decide_eq_true_eq] at before ⊢
    cases order <;> simp only [Precedes] at before ⊢ <;> omega
  have fewer := (List.subperm_of_subset ((List.filter_sublist.map id).nodup keys) within).length_le
  rw [List.length_map, List.length_map] at fewer
  rw [idxOf_eq_length keys sorted here, ← same, idxOf_eq_length keys' sorted' here']
  exact fewer

end Ordered

end SqlQuery
