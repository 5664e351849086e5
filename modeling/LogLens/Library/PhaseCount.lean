import Mathlib.Algebra.BigOperators.Group.Finset.Basic

/-! How many of finitely many processes are in a phase of a kind. -/

namespace PhaseCount

variable {ι α : Type*} [Fintype ι]

def count (kind : α → Bool) (phase : ι → α) : Nat :=
  (Finset.univ.filter fun i => kind (phase i) = true).card

theorem count_pos_iff {kind : α → Bool} {phase : ι → α} :
    0 < count kind phase ↔ ∃ i, kind (phase i) = true := by
  simp [count, Finset.card_pos, Finset.filter_nonempty_iff]

theorem count_eq_zero_iff {kind : α → Bool} {phase : ι → α} :
    count kind phase = 0 ↔ ∀ i, kind (phase i) = false := by
  simp [count, Finset.filter_eq_empty_iff]

theorem count_le {kind other : α → Bool} {phase : ι → α}
    (implies : ∀ i, kind (phase i) = true → other (phase i) = true) :
    count kind phase ≤ count other phase := by
  refine Finset.card_le_card fun i hi => ?_
  simp only [Finset.mem_filter, Finset.mem_univ, true_and] at hi ⊢
  exact implies i hi

/-- Phases of one of two kinds, none of which is of both. -/
theorem count_or (kind other : α → Bool)
    (apart : ∀ a, kind a = true → other a = false) (phase : ι → α) :
    count (fun a => kind a || other a) phase = count kind phase + count other phase := by
  classical
  unfold count
  rw [← Finset.card_union_of_disjoint]
  · congr 1
    ext i
    simp
  · rw [Finset.disjoint_filter]
    intro i _ own
    simp [apart _ own]

variable [DecidableEq ι]

/-- One process moves to an other phase. -/
theorem count_update (kind : α → Bool) (phase : ι → α) (i : ι) (a : α) :
    count kind (Function.update phase i a) + (kind (phase i)).toNat =
      count kind phase + (kind a).toNat := by
  have split (f : ι → α) : count kind f =
      (kind (f i)).toNat + ((Finset.univ.erase i).filter fun k => kind (f k) = true).card := by
    unfold count
    rw [← Finset.insert_erase (Finset.mem_univ i), Finset.filter_insert]
    split
    · rename_i own
      rw [Finset.card_insert_of_notMem (by simp), own]
      simp [Nat.add_comm]
    · rename_i other
      simp [Bool.eq_false_iff.mpr other]
  have others : ((Finset.univ.erase i).filter fun k =>
      kind (Function.update phase i a k) = true) =
      (Finset.univ.erase i).filter fun k => kind (phase k) = true := by
    refine Finset.filter_congr fun k hk => ?_
    rw [Function.update_of_ne (Finset.ne_of_mem_erase hk)]
  rw [split, split phase, Function.update_self, others]
  omega

end PhaseCount
