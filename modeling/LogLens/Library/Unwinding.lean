import Mathlib.Data.List.Basic

/-! Machines that answer every input, and the unwinding of two of them: where related
states answer alike and stay related, all their answers are alike. -/

namespace Unwinding

/-- A step answers an input and moves to a state. -/
structure Transducer (σ ι ο : Type*) where
  step : σ → ι → ο × σ

namespace Transducer
variable {σ σ' ι ο : Type*} (M : Transducer σ ι ο)

/-- The answers to the inputs, in their order. -/
def answers : σ → List ι → List ο
  | _, [] => []
  | s, a :: rest => (M.step s a).1 :: answers (M.step s a).2 rest

/-- The state after the inputs. -/
def final : σ → List ι → σ
  | s, [] => s
  | s, a :: rest => final (M.step s a).2 rest

variable {M} {N : Transducer σ' ι ο} {R : σ → σ' → Prop} {P : ι → Prop}

theorem unwinding (unwind : ∀ s t a, R s t → P a →
      (M.step s a).1 = (N.step t a).1 ∧ R (M.step s a).2 (N.step t a).2)
    {s : σ} {t : σ'} {inputs : List ι} (related : R s t) (meets : ∀ a ∈ inputs, P a) :
    M.answers s inputs = N.answers t inputs ∧ R (M.final s inputs) (N.final t inputs) := by
  induction inputs generalizing s t with
  | nil => exact ⟨rfl, related⟩
  | cons a rest ih =>
    rw [List.forall_mem_cons] at meets
    obtain ⟨answer, next⟩ := unwind s t a related meets.1
    obtain ⟨later, last⟩ := ih next meets.2
    refine ⟨?_, last⟩
    rw [answers, answers, answer, later]

end Transducer

end Unwinding
