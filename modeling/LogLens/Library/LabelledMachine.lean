import Mathlib.Data.List.Basic
import Mathlib.Data.List.Induction

/-! Machines whose nondeterminism sits in the label of a step.
A step is a partial function of the state and the label, so a run is a list of
labels, it can be executed, and a trace is checked by evaluating it.
`Reach` collects the states of the runs whose every step meets a condition. -/

namespace LabelledMachine

structure Machine (σ α : Type*) where
  step : σ → α → Option σ

variable {σ α : Type*} (M : Machine σ α)

/-- Runs labels in order; `none` when one of them is not enabled. -/
def Machine.run : σ → List α → Option σ
  | s, [] => some s
  | s, a :: rest => (M.step s a).bind fun t => Machine.run t rest

@[simp] theorem run_nil (s : σ) : M.run s [] = some s := rfl

theorem run_cons (s : σ) (a : α) (rest : List α) :
    M.run s (a :: rest) = (M.step s a).bind fun t => M.run t rest := rfl

theorem run_append (s : σ) (before after : List α) :
    M.run s (before ++ after) = (M.run s before).bind fun t => M.run t after := by
  induction before generalizing s with
  | nil => rfl
  | cons a rest ih =>
    rw [List.cons_append, run_cons, run_cons]
    cases M.step s a with
    | none => rfl
    | some t => exact ih t

/-- Every step of the run meets `G` in the state it is taken from. -/
def Meets (G : σ → α → Prop) : σ → List α → Prop
  | _, [] => True
  | s, a :: rest => G s a ∧ ∀ t, M.step s a = some t → Meets G t rest

instance decidableMeets (G : σ → α → Prop) [∀ s a, Decidable (G s a)] :
    ∀ s labels, Decidable (Meets M G s labels)
  | _, [] => isTrue trivial
  | s, a :: rest =>
    match moved : M.step s a with
    | none => decidable_of_iff (G s a) (by simp [Meets, moved])
    | some t =>
      haveI := decidableMeets G t rest
      decidable_of_iff (G s a ∧ Meets M G t rest) (by simp [Meets, moved])

/-- The states of the runs from `Start` whose steps all meet `G`. -/
inductive Reach (G : σ → α → Prop) (Start : σ → Prop) : σ → Prop
  | start {s : σ} : Start s → Reach G Start s
  | next {s t : σ} {a : α} : Reach G Start s → G s a → M.step s a = some t → Reach G Start t

/-- The condition met by every step. -/
def Always (_ : σ) (_ : α) : Prop := True

variable {M} {G H : σ → α → Prop} {Start : σ → Prop}

/-- What holds at the start and is kept by every step that meets the condition
holds in every state reached. -/
theorem Reach.invariant {I : σ → Prop} {s : σ} (reached : Reach M G Start s)
    (base : ∀ s, Start s → I s)
    (keep : ∀ s t a, I s → G s a → M.step s a = some t → I t) : I s := by
  induction reached with
  | start h => exact base _ h
  | next _ guard moved ih => exact keep _ _ _ ih guard moved

theorem Reach.weaken {s : σ} (reached : Reach M G Start s)
    (weaker : ∀ s a, G s a → H s a) : Reach M H Start s := by
  induction reached with
  | start h => exact .start h
  | next _ guard moved ih => exact .next ih (weaker _ _ guard) moved

/-- An executed trace whose steps meet the condition ends in a state reached. -/
theorem Reach.of_run {s t : σ} {labels : List α} (reached : Reach M G Start s)
    (meets : Meets M G s labels) (ran : M.run s labels = some t) : Reach M G Start t := by
  induction labels generalizing s with
  | nil =>
    rw [run_nil, Option.some.injEq] at ran
    exact ran ▸ reached
  | cons a rest ih =>
    rw [run_cons, Option.bind_eq_some_iff] at ran
    obtain ⟨u, moved, ran⟩ := ran
    exact ih (.next reached meets.1 moved) (meets.2 u moved) ran

/-- A step that fails the condition sits somewhere in a run that does not meet it. -/
theorem exists_of_not_meets {s t : σ} {labels : List α} (ran : M.run s labels = some t)
    (fails : ¬ Meets M G s labels) :
    ∃ before a after u v, labels = before ++ a :: after ∧ M.run s before = some u ∧
      ¬ G u a ∧ M.step u a = some v ∧ M.run v after = some t := by
  induction labels generalizing s with
  | nil => exact absurd trivial fails
  | cons a rest ih =>
    rw [run_cons, Option.bind_eq_some_iff] at ran
    obtain ⟨v, moved, ran⟩ := ran
    by_cases guard : G s a
    · have fails' : ¬ Meets M G v rest := by
        intro meets
        refine fails ⟨guard, fun t' moved' => ?_⟩
        rw [moved, Option.some.injEq] at moved'
        exact moved' ▸ meets
      obtain ⟨before, b, after, u, w, split, ranBefore, bad, movedB, ranAfter⟩ := ih ran fails'
      refine ⟨a :: before, b, after, u, w, by rw [split]; rfl, ?_, bad, movedB, ranAfter⟩
      rw [run_cons, moved]
      exact ranBefore
    · exact ⟨[], a, rest, s, v, rfl, rfl, guard, moved, ran⟩

/-- Where a step relates its two states exactly when it meets the condition, every step
of a run relates its states exactly when the run meets the condition. -/
theorem steps_iff_meets {I : σ → Prop} {R : σ → σ → Prop}
    (exact : ∀ s t a, I s → M.step s a = some t → (R s t ↔ G s a))
    (keep : ∀ s t a, I s → M.step s a = some t → R s t → I t)
    {s u : σ} {labels : List α} (valid : I s) (ran : M.run s labels = some u) :
    (∀ before a after v w, labels = before ++ a :: after → M.run s before = some v →
      M.step v a = some w → R v w) ↔ Meets M G s labels := by
  induction labels generalizing s with
  | nil => exact iff_of_true (by simp) trivial
  | cons a rest ih =>
    rw [run_cons, Option.bind_eq_some_iff] at ran
    obtain ⟨t, moved, ran⟩ := ran
    have here := exact s t a valid moved
    constructor
    · intro steps
      have related := steps [] a rest s t rfl rfl moved
      have later := (ih (keep s t a valid moved related) ran).mp
        fun before b after v w split ranBefore =>
          steps (a :: before) b after v w (by rw [split]; rfl)
            (by rw [run_cons, moved]; exact ranBefore)
      refine ⟨here.mp related, fun t' moved' => ?_⟩
      rw [moved, Option.some.injEq] at moved'
      exact moved' ▸ later
    · rintro ⟨guard, meets⟩ before b after v w split ranBefore movedB
      have related := here.mpr guard
      cases before with
      | nil =>
        rw [List.nil_append, List.cons_eq_cons] at split
        rw [run_nil, Option.some.injEq] at ranBefore
        rw [← ranBefore, ← split.1, moved, Option.some.injEq] at movedB
        exact ranBefore ▸ movedB ▸ related
      | cons c before =>
        rw [List.cons_append, List.cons_eq_cons] at split
        rw [run_cons, ← split.1, moved] at ranBefore
        exact (ih (keep s t a valid moved related) ran).mpr (meets t moved) before b after v w
          split.2 ranBefore movedB

/-- Where a step lands in `P` exactly when it meets the condition, a run stays in
`P` exactly when all its steps do. -/
theorem prefixes_iff_meets {I P : σ → Prop} (keep : ∀ s t a, I s → M.step s a = some t → I t)
    (exact : ∀ s t a, I s → P s → M.step s a = some t → (P t ↔ G s a))
    {s u : σ} {labels : List α} (valid : I s) (holds : P s) (ran : M.run s labels = some u) :
    (∀ before after t, labels = before ++ after → M.run s before = some t → P t) ↔
      Meets M G s labels := by
  have steps := steps_iff_meets (I := fun s => I s ∧ P s) (R := fun _ t => P t)
    (fun s t a both moved => exact s t a both.1 both.2 moved)
    (fun s t a both moved holds => ⟨keep s t a both.1 moved, holds⟩) ⟨valid, holds⟩ ran
  rw [← steps]
  constructor
  · intro prefixes before a after v w split ranBefore moved
    refine prefixes (before ++ [a]) after w (by rw [split]; simp) ?_
    rw [run_append, ranBefore, Option.bind_some, run_cons, moved]
    rfl
  · intro later before after t split ranBefore
    cases List.eq_nil_or_concat before with
    | inl start =>
      rw [start, run_nil, Option.some.injEq] at ranBefore
      exact ranBefore ▸ holds
    | inr more =>
      obtain ⟨front, a, rfl⟩ := more
      rw [List.concat_eq_append, run_append, Option.bind_eq_some_iff] at ranBefore
      obtain ⟨v, ranFront, last⟩ := ranBefore
      rw [run_cons, Option.bind_eq_some_iff] at last
      obtain ⟨w, moved, ended⟩ := last
      rw [run_nil, Option.some.injEq] at ended
      exact ended ▸ later front a after v w (by rw [split]; simp) ranFront moved

/-- What a step keeps, a run keeps. -/
theorem run_invariant {I : σ → Prop} (keep : ∀ s t a, I s → M.step s a = some t → I t)
    {s t : σ} {labels : List α} (holds : I s) (ran : M.run s labels = some t) : I t := by
  induction labels generalizing s with
  | nil =>
    rw [run_nil, Option.some.injEq] at ran
    exact ran ▸ holds
  | cons a rest ih =>
    rw [run_cons, Option.bind_eq_some_iff] at ran
    obtain ⟨u, moved, ran⟩ := ran
    exact ih (keep _ _ _ holds moved) ran

/-- Induction over a run by its last step. -/
theorem run_induction {P : List α → σ → Prop} {s₀ s : σ} {labels : List α} (start : P [] s₀)
    (keep : ∀ before a t u, M.run s₀ before = some t → P before t → M.step t a = some u →
      P (before ++ [a]) u) (ran : M.run s₀ labels = some s) : P labels s := by
  induction labels using List.reverseRecOn generalizing s with
  | nil =>
    rw [run_nil, Option.some.injEq] at ran
    exact ran ▸ start
  | append_singleton before a ih =>
    rw [run_append, Option.bind_eq_some_iff] at ran
    obtain ⟨t, ranBefore, last⟩ := ran
    rw [run_cons, Option.bind_eq_some_iff] at last
    obtain ⟨u, moved, ended⟩ := last
    rw [run_nil, Option.some.injEq] at ended
    exact ended ▸ keep before a t u ranBefore (ih ranBefore) moved

end LabelledMachine
