import Mathlib.Data.List.Nodup
import Mathlib.Logic.Function.Basic

/-! Rows under READ COMMITTED. A write makes an uncommitted version that locks
its row until the writer commits or rolls back; a statement sees the committed
versions. A second writer of a locked row has to wait. -/

namespace RowVersions

structure Rows (κ ρ ι : Type*) where
  /-- the keys ever written, for statements that scan the table -/
  keys : List κ
  nodup : keys.Nodup
  committed : κ → Option ρ
  uncommitted : κ → Option (ι × ρ)
  listed : ∀ k, committed k ≠ none ∨ uncommitted k ≠ none → k ∈ keys

variable {κ ρ ι : Type*}

def Rows.empty : Rows κ ρ ι where
  keys := []
  nodup := List.nodup_nil
  committed _ := none
  uncommitted _ := none
  listed := by simp

/-- A transaction other than `i` locks the row. -/
def Rows.lockedAgainst [DecidableEq ι] (s : Rows κ ρ ι) (i : ι) (k : κ) : Bool :=
  (s.uncommitted k).any fun version => version.1 ≠ i

/-- The keys of the committed rows that satisfy a condition. -/
def Rows.matching (s : Rows κ ρ ι) (condition : ρ → Bool) : List κ :=
  s.keys.filter fun k => (s.committed k).any condition

/-- The version a commit of `i` leaves of a row. -/
def Rows.afterCommit [DecidableEq ι] (s : Rows κ ρ ι) (i : ι) (k : κ) : Option ρ :=
  match s.uncommitted k with
  | some (j, row) => if j = i then some row else s.committed k
  | none => s.committed k

section Transactions
variable [DecidableEq κ] [DecidableEq ι] (s : Rows κ ρ ι) (i : ι)

/-- `none` while the row is locked by another transaction. -/
def Rows.write (k : κ) (row : ρ) : Option (Rows κ ρ ι) :=
  if s.lockedAgainst i k then none
  else some
    { keys := if k ∈ s.keys then s.keys else k :: s.keys
      nodup := by
        split
        · exact s.nodup
        · exact List.nodup_cons.mpr ⟨‹_›, s.nodup⟩
      committed := s.committed
      uncommitted := Function.update s.uncommitted k (some (i, row))
      listed := by
        intro k' present
        by_cases own : k' = k
        · split <;> simp_all
        · rw [Function.update_of_ne own] at present
          have old := s.listed k' present
          split
          · exact old
          · exact List.mem_cons_of_mem _ old }

omit [DecidableEq κ] in
theorem afterCommit_present {k : κ} (present : s.afterCommit i k ≠ none) :
    s.committed k ≠ none ∨ s.uncommitted k ≠ none := by
  unfold Rows.afterCommit at present
  split at present
  · rename_i version
    exact .inr (by rw [version]; rintro ⟨⟩)
  · exact .inl present

omit [DecidableEq κ] in
theorem filter_present {k : κ}
    (present : (s.uncommitted k).filter (fun version => version.1 ≠ i) ≠ none) :
    s.uncommitted k ≠ none := by
  intro none
  rw [none] at present
  exact present rfl

omit [DecidableEq κ] in
def Rows.commit : Rows κ ρ ι where
  keys := s.keys
  nodup := s.nodup
  committed := s.afterCommit i
  uncommitted k := (s.uncommitted k).filter fun version => version.1 ≠ i
  listed k present := by
    refine s.listed k (present.elim (afterCommit_present s i) fun kept => ?_)
    exact .inr (filter_present s i kept)

omit [DecidableEq κ] in
def Rows.rollback : Rows κ ρ ι where
  keys := s.keys
  nodup := s.nodup
  committed := s.committed
  uncommitted k := (s.uncommitted k).filter fun version => version.1 ≠ i
  listed k present := s.listed k (present.imp_right (filter_present s i))

variable {s i} {t : Rows κ ρ ι} {k k' : κ} {row row' : ρ} {j : ι}

theorem write_free (wrote : s.write i k row = some t) (version : s.uncommitted k = some (j, row')) :
    j = i := by
  unfold Rows.write Rows.lockedAgainst at wrote
  rw [version] at wrote
  by_contra other
  simp [other] at wrote

theorem write_committed (wrote : s.write i k row = some t) : t.committed = s.committed := by
  unfold Rows.write at wrote
  split at wrote <;> cases wrote
  rfl

theorem write_uncommitted (wrote : s.write i k row = some t) :
    t.uncommitted = Function.update s.uncommitted k (some (i, row)) := by
  unfold Rows.write at wrote
  split at wrote <;> cases wrote
  rfl

/-- The versions of the others stay. -/
theorem write_others (wrote : s.write i k row = some t) (other : j ≠ i)
    (version : s.uncommitted k' = some (j, row')) : t.uncommitted k' = some (j, row') := by
  rw [write_uncommitted wrote]
  by_cases own : k' = k
  · subst own
    exact absurd (write_free wrote version) other
  · rw [Function.update_of_ne own, version]

/-- A write makes no version of an other. -/
theorem write_foreign (wrote : s.write i k row = some t) (other : j ≠ i) :
    t.uncommitted k' = some (j, row') ↔ s.uncommitted k' = some (j, row') := by
  refine ⟨fun version => ?_, write_others wrote other⟩
  rw [write_uncommitted wrote] at version
  by_cases own : k' = k
  · subst own
    rw [Function.update_self, Option.some.injEq, Prod.mk.injEq] at version
    exact absurd version.1.symm other
  · rwa [Function.update_of_ne own] at version

omit [DecidableEq κ] in
theorem commit_own (version : s.uncommitted k = some (i, row)) :
    (s.commit i).committed k = some row := by
  change s.afterCommit i k = some row
  unfold Rows.afterCommit
  rw [version]
  exact if_pos rfl

omit [DecidableEq κ] in
theorem commit_other (foreign : ∀ row, s.uncommitted k ≠ some (i, row)) :
    (s.commit i).committed k = s.committed k := by
  change s.afterCommit i k = s.committed k
  unfold Rows.afterCommit
  cases version : s.uncommitted k with
  | none => rfl
  | some pair =>
    obtain ⟨j, row⟩ := pair
    refine if_neg fun own => foreign row ?_
    rw [version, own]

omit [DecidableEq κ] in
@[simp] theorem commit_uncommitted : (s.commit i).uncommitted k = some (j, row) ↔
    s.uncommitted k = some (j, row) ∧ j ≠ i := by
  change (s.uncommitted k).filter _ = some (j, row) ↔ _
  rw [Option.filter_eq_some_iff]
  simp

omit [DecidableEq κ] in
@[simp] theorem rollback_uncommitted : (s.rollback i).uncommitted k = some (j, row) ↔
    s.uncommitted k = some (j, row) ∧ j ≠ i := by
  change (s.uncommitted k).filter _ = some (j, row) ↔ _
  rw [Option.filter_eq_some_iff]
  simp

omit [DecidableEq κ] [DecidableEq ι] in
theorem mem_matching {condition : ρ → Bool} :
    k ∈ s.matching condition ↔ ∃ row, s.committed k = some row ∧ condition row = true := by
  unfold Rows.matching
  rw [List.mem_filter, Option.any_eq_true]
  constructor
  · rintro ⟨-, row, here, holds⟩
    exact ⟨row, here, holds⟩
  · rintro ⟨row, here, holds⟩
    exact ⟨s.listed k (.inl (by rw [here]; rintro ⟨⟩)), row, here, holds⟩

omit [DecidableEq κ] [DecidableEq ι] in
theorem matching_length_le_one {condition : ρ → Bool}
    (unique : ∀ k k', k ∈ s.matching condition → k' ∈ s.matching condition → k = k') :
    (s.matching condition).length ≤ 1 := by
  have nodup : (s.matching condition).Nodup := s.nodup.filter _
  cases keys : s.matching condition with
  | nil => exact Nat.zero_le _
  | cons k rest =>
    cases rest with
    | nil => exact Nat.le_refl _
    | cons k' rest =>
      rw [keys] at nodup unique
      have same := unique k k' List.mem_cons_self (List.mem_cons_of_mem _ List.mem_cons_self)
      exact absurd (same ▸ List.mem_cons_self) (List.nodup_cons.mp nodup).1

end Transactions

end RowVersions
