import Mathlib.Data.List.Nodup

/-! Positions of rows in a table, found by the value of a column. Two columns
without repetitions find a row at the same position, and positions survive
updates that keep the column and rows added at the end. -/

namespace RowPosition

variable {ρ κ ν : Type*} [DecidableEq κ] [DecidableEq ν]

/-- The position of the first row with a value, or the number of rows. -/
def position (column : ρ → κ) (value : κ) (rows : List ρ) : Nat :=
  rows.findIdx fun row => column row = value

variable {column : ρ → κ} {value : κ} {rows : List ρ}

theorem position_cons (row : ρ) : position column value (row :: rows) =
    if column row = value then 0 else position column value rows + 1 := by
  unfold position
  rw [List.findIdx_cons]
  by_cases here : column row = value <;> simp [here]

theorem position_map {f : ρ → ρ} (keeps : ∀ row, column (f row) = column row) :
    position column value (rows.map f) = position column value rows := by
  induction rows with
  | nil => rfl
  | cons row rest ih => rw [List.map_cons, position_cons, position_cons, keeps, ih]

theorem position_absent (absent : ∀ row ∈ rows, column row ≠ value) :
    position column value rows = rows.length :=
  List.findIdx_eq_length.mpr fun row hr => by simpa using absent row hr

theorem position_lt {row : ρ} (here : row ∈ rows) :
    position column (column row) rows < rows.length :=
  List.findIdx_lt_length_of_exists ⟨row, here, by simp⟩

/-- Rows added at the end leave the rows before them where they are. -/
theorem position_append {row : ρ} (here : row ∈ rows) (more : List ρ) :
    position column (column row) (rows ++ more) = position column (column row) rows := by
  unfold position
  rw [List.findIdx_append]
  exact if_pos (position_lt here)

/-- The first row with a new value goes behind the others. -/
theorem position_new {row : ρ} (absent : ∀ other ∈ rows, column other ≠ column row) :
    position column (column row) (rows ++ [row]) = rows.length := by
  have outside : ¬ position column (column row) rows < rows.length := by
    rw [position_absent absent]
    exact Nat.lt_irrefl _
  unfold position at outside ⊢
  rw [List.findIdx_append, if_neg outside, List.findIdx_singleton]
  simp

/-- Two columns without repetitions find a row at the same position. -/
theorem position_unique {other : ρ → ν} (unique : (rows.map column).Nodup)
    (unique' : (rows.map other).Nodup) {row : ρ} (here : row ∈ rows) :
    position column (column row) rows = position other (other row) rows := by
  induction rows with
  | nil => cases here
  | cons first rest ih =>
    rw [List.map_cons, List.nodup_cons] at unique unique'
    rw [position_cons, position_cons]
    cases List.mem_cons.mp here with
    | inl same => rw [same, if_pos rfl, if_pos rfl]
    | inr later =>
      have apart : column first ≠ column row :=
        fun same => unique.1 (same ▸ List.mem_map_of_mem later)
      have apart' : other first ≠ other row :=
        fun same => unique'.1 (same ▸ List.mem_map_of_mem later)
      rw [if_neg apart, if_neg apart', ih unique.2 unique'.2 later]

end RowPosition
