import LogLens.Library.LabelledMachine

/-! Serial orders. A concurrent run is explained by a list of its requests, each with the
effect it had on the shared value where it stands in the list. A request without an effect
can be left out, and a list whose effects are those of lone runs is run one at a time. -/

namespace SerialOrder
open LabelledMachine

variable {ι ρ σ α : Type*}

/-- The effects of the requests of a list, one after the other. -/
inductive Serial (Effect : ι → ρ → ρ → Prop) (r₀ : ρ) : List ι → ρ → Prop
  | nil : Serial Effect r₀ [] r₀
  | snoc {order : List ι} {i : ι} {r r' : ρ} :
    Serial Effect r₀ order r → Effect i r r' → Serial Effect r₀ (order ++ [i]) r'

variable {Effect Effect' : ι → ρ → ρ → Prop} {r₀ r : ρ} {order : List ι}

theorem Serial.mono (serial : Serial Effect r₀ order r)
    (weaker : ∀ i ∈ order, ∀ r r', Effect i r r' → Effect' i r r') :
    Serial Effect' r₀ order r := by
  induction serial with
  | nil => exact .nil
  | snoc _ effect ih =>
    refine .snoc (ih fun i hi => weaker i (List.mem_append_left _ hi)) (weaker _ ?_ _ _ effect)
    exact List.mem_append_right _ (List.mem_singleton_self _)

theorem Serial.mem (serial : Serial Effect r₀ order r) {i : ι} (hi : i ∈ order) :
    ∃ r r', Effect i r r' := by
  induction serial with
  | nil => exact absurd hi List.not_mem_nil
  | @snoc order j r r' _ effect ih =>
    rcases List.mem_append.mp hi with before | last
    · exact ih before
    · exact ⟨r, r', List.mem_singleton.mp last ▸ effect⟩

theorem Serial.invariant {I : ρ → Prop} (serial : Serial Effect r₀ order r) (start : I r₀)
    (keep : ∀ i ∈ order, ∀ r r', I r → Effect i r r' → I r') : I r := by
  induction serial with
  | nil => exact start
  | snoc _ effect ih =>
    refine keep _ ?_ _ _ (ih fun i hi => keep i (List.mem_append_left _ hi)) effect
    exact List.mem_append_right _ (List.mem_singleton_self _)

/-- Requests without an effect can be left out. -/
theorem Serial.filter {p : ι → Bool} (serial : Serial Effect r₀ order r)
    (idle : ∀ i ∈ order, p i = false → ∀ r r', Effect i r r' → r' = r) :
    Serial Effect r₀ (order.filter p) r := by
  induction serial with
  | nil => exact .nil
  | @snoc order i r r' _ effect ih =>
    have before := ih fun j hj => idle j (List.mem_append_left _ hj)
    rw [List.filter_append]
    cases kept : p i with
    | true =>
      rw [List.filter_cons_of_pos kept, List.filter_nil]
      exact .snoc before effect
    | false =>
      have last : i ∈ order ++ [i] := List.mem_append_right _ (List.mem_singleton_self i)
      rw [List.filter_cons_of_neg (by simp [kept]), List.filter_nil, List.append_nil,
        idle i last kept r r' effect]
      exact before

/-- A counter that the requests of a kind move counts them. -/
theorem Serial.countP {counter : ρ → Nat} {p : ι → Bool} (serial : Serial Effect r₀ order r)
    (counts : ∀ i ∈ order, ∀ r r', Effect i r r' →
      counter r' = counter r + if p i = true then 1 else 0) :
    counter r = counter r₀ + order.countP p := by
  induction serial with
  | nil => rfl
  | @snoc order i r r' _ effect ih =>
    have last : i ∈ order ++ [i] := List.mem_append_right _ (List.mem_singleton_self i)
    have before := ih fun j hj => counts j (List.mem_append_left _ hj)
    rw [counts i last r r' effect, before, List.countP_append, List.countP_singleton]
    omega

/-- The requests of a list run from their start to their end, one after the other. -/
inductive OneAtATime (M : Machine σ α) (owner : α → ι) (Ended : σ → ι → Prop) (s₀ : σ) :
    List ι → σ → Prop
  | nil : OneAtATime M owner Ended s₀ [] s₀
  | snoc {order : List ι} {i : ι} {s t : σ} {labels : List α} :
    OneAtATime M owner Ended s₀ order s → (∀ a ∈ labels, owner a = i) →
    M.run s labels = some t → Ended t i → OneAtATime M owner Ended s₀ (order ++ [i]) t

/-- Effects that lone runs have are run one at a time. `Explains order r s` says what is kept:
`s` is a state between two requests that has the value `r` after the requests of `order`. -/
theorem Serial.oneAtATime {M : Machine σ α} {owner : α → ι} {Ended : σ → ι → Prop} {s₀ : σ}
    {Explains : List ι → ρ → σ → Prop} (start : Explains [] r₀ s₀)
    (serial : Serial Effect r₀ order r) (nodup : order.Nodup)
    (alone : ∀ before i r r' s, i ∉ before → i ∈ order → Explains before r s → Effect i r r' →
      ∃ labels t, (∀ a ∈ labels, owner a = i) ∧ M.run s labels = some t ∧ Ended t i ∧
        Explains (before ++ [i]) r' t) :
    ∃ t, OneAtATime M owner Ended s₀ order t ∧ Explains order r t := by
  induction serial with
  | nil => exact ⟨s₀, .nil, start⟩
  | @snoc order i r r' _ effect ih =>
    have parts := List.nodup_append.mp nodup
    obtain ⟨s, ran, explained⟩ := ih parts.1 fun before j r r' s fresh hj =>
      alone before j r r' s fresh (List.mem_append_left _ hj)
    have fresh : i ∉ order := fun hi => parts.2.2 i hi i (List.mem_singleton_self i) rfl
    obtain ⟨labels, t, own, ran', ended, explained'⟩ := alone order i r r' s fresh
      (List.mem_append_right _ (List.mem_singleton_self i)) explained effect
    exact ⟨t, .snoc ran own ran' ended, explained'⟩

end SerialOrder
