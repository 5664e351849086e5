import Mathlib.Logic.Relation

/-! Nodes that each point to at most one other node, and the chains of pointers. -/

namespace PointerChains

variable {κ : Type*}

def Points (next : κ → Option κ) (a b : κ) : Prop := next a = some b

/-- `b` is reached from `a` by following pointers. -/
def Leads (next : κ → Option κ) : κ → κ → Prop := Relation.ReflTransGen (Points next)

/-- No node is reached again after leaving it. -/
def Acyclic (next : κ → Option κ) : Prop := ∀ a, ¬ Relation.TransGen (Points next) a a

variable {next next' : κ → Option κ}

theorem acyclic_of_none (none : ∀ a, next a = none) : Acyclic next := by
  intro a cycle
  obtain ⟨b, first, -⟩ := Relation.TransGen.head'_iff.mp cycle
  simp [Points, none] at first

/-- Dropping pointers closes no cycle. -/
theorem Acyclic.drop (acyclic : Acyclic next)
    (old : ∀ a b, next' a = some b → next a = some b) : Acyclic next' := by
  intro a cycle
  exact acyclic a (Relation.TransGen.mono old _ _ cycle)

/-- Pointers to a node that has none of its own close no cycle. -/
theorem Acyclic.link (acyclic : Acyclic next) {last : κ} (ends : next' last = none)
    (old : ∀ a b, next' a = some b → b ≠ last → next a = some b) : Acyclic next' := by
  have inner : ∀ {a b : κ}, Relation.TransGen (Points next') a b → b ≠ last →
      Relation.TransGen (Points next) a b := by
    intro a b chain
    induction chain with
    | single first =>
      intro other
      exact .single (old _ _ first other)
    | @tail b c _ step ih =>
      intro other
      refine .tail (ih ?_) (old _ _ step other)
      rintro rfl
      simp [Points, ends] at step
  intro a cycle
  refine acyclic a (inner cycle ?_)
  rintro rfl
  obtain ⟨b, first, -⟩ := Relation.TransGen.head'_iff.mp cycle
  simp [Points, ends] at first

theorem Leads.mono (kept : ∀ a b, next a = some b → next' a = some b) {a b : κ}
    (chain : Leads next a b) : Leads next' a b :=
  Relation.ReflTransGen.mono kept _ _ chain

/-- What every pointer keeps, a chain keeps. -/
theorem Leads.invariant {P : κ → Prop} (keep : ∀ a b, next a = some b → P a → P b) {a b : κ}
    (chain : Leads next a b) (holds : P a) : P b := by
  induction chain with
  | refl => exact holds
  | tail _ step ih => exact keep _ _ step ih

end PointerChains
