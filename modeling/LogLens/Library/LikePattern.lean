import Mathlib.Data.List.Basic
import Mathlib.Data.List.Infix

/-! The pattern language of LIKE: `%` stands for any text, `_` for any character
and the backslash for the character behind it. A text put between two `%` finds
the texts that contain it exactly when it holds none of the three. -/

namespace LikePattern

/-- The characters with a meaning of their own. -/
def IsSpecial (c : Char) : Prop := c = '%' ∨ c = '_' ∨ c = '\\'

instance (c : Char) : Decidable (IsSpecial c) := inferInstanceAs (Decidable (_ ∨ _ ∨ _))

def Plain (text : List Char) : Prop := ∀ c ∈ text, ¬ IsSpecial c

instance (text : List Char) : Decidable (Plain text) := inferInstanceAs (Decidable (∀ c ∈ _, _))

def oneThen (test : Char → Bool) (rest : List Char → Bool) : List Char → Bool
  | [] => false
  | x :: s => test x && rest s

/-- A lone backslash at the end is an error of the pattern; it matches nothing. -/
def like : List Char → List Char → Bool
  | [] => List.isEmpty
  | '%' :: p => fun s => s.tails.any (like p)
  | '_' :: p => oneThen (fun _ => true) (like p)
  | '\\' :: c :: p => oneThen (· = c) (like p)
  | ['\\'] => fun _ => false
  | c :: p => oneThen (· = c) (like p)

theorem like_any (p s : List Char) : like ('%' :: p) s = true ↔ ∃ t, t <:+ s ∧ like p t = true := by
  simp [like]

theorem like_lit {c : Char} (lit : ¬ IsSpecial c) (p : List Char) :
    like (c :: p) = oneThen (· = c) (like p) := by
  rw [like] <;> intros <;> simp_all [IsSpecial]

theorem like_plain {text : List Char} (plain : Plain text) (p s : List Char) :
    like (text ++ p) s = true ↔ ∃ t, s = text ++ t ∧ like p t = true := by
  induction text generalizing s with
  | nil => simp
  | cons c rest ih =>
    obtain ⟨lit, plain⟩ := List.forall_mem_cons.mp plain
    rw [List.cons_append, like_lit lit]
    cases s with
    | nil => simp [oneThen]
    | cons x s =>
      rw [oneThen, Bool.and_eq_true, decide_eq_true_eq, ih plain]
      constructor
      · rintro ⟨rfl, t, rfl, matched⟩
        exact ⟨t, rfl, matched⟩
      · rintro ⟨t, same, matched⟩
        rw [List.cons_append, List.cons.injEq] at same
        exact ⟨same.1, t, same.2, matched⟩

theorem like_contains {text : List Char} (plain : Plain text) (s : List Char) :
    like ('%' :: text ++ ['%']) s = true ↔ text <:+: s := by
  rw [List.cons_append, like_any]
  constructor
  · rintro ⟨t, ⟨front, rfl⟩, matched⟩
    obtain ⟨back, rfl, -⟩ := (like_plain plain _ _).mp matched
    exact ⟨front, back, by rw [List.append_assoc]⟩
  · rintro ⟨front, back, rfl⟩
    refine ⟨text ++ back, ⟨front, by rw [List.append_assoc]⟩, (like_plain plain _ _).mpr ?_⟩
    exact ⟨back, rfl, (like_any _ _).mpr ⟨[], List.nil_suffix, rfl⟩⟩

/-- A shortest text that the pattern finds; `x` stands for `_`. -/
def sample : List Char → List Char
  | [] => []
  | '%' :: p => sample p
  | '_' :: p => 'x' :: sample p
  | '\\' :: c :: p => c :: sample p
  | ['\\'] => ['%']
  | c :: p => c :: sample p

/-- The last equation of `sample` is about characters without a meaning of their own. -/
theorem not_special {c : Char} {p : List Char} (any : c = '%' → False) (one : c = '_' → False)
    (escape : ∀ d q, c = '\\' → p = d :: q → False) (last : c = '\\' → p = [] → False) :
    ¬ IsSpecial c := by
  rintro (rfl | rfl | rfl)
  · exact any rfl
  · exact one rfl
  · cases p with
    | nil => exact last rfl rfl
    | cons d q => exact escape d q rfl rfl

theorem like_sample (text : List Char) : like (text ++ ['%']) (sample text) = true := by
  induction text using sample.induct with
  | case1 => rfl
  | case2 p ih => exact (like_any _ _).mpr ⟨_, List.suffix_refl _, ih⟩
  | case3 p ih => simpa [like, sample, oneThen] using ih
  | case4 c p ih => simpa [like, sample, oneThen] using ih
  | case5 => rfl
  | case6 c p any one escape last ih =>
    have lit := not_special any one escape last
    rw [List.cons_append, like_lit lit, sample] <;> simp_all [oneThen]

theorem length_sample (text : List Char) : (sample text).length ≤ text.length := by
  induction text using sample.induct with
  | case1 => exact le_refl _
  | case2 p ih => simp only [sample, List.length_cons]; omega
  | case3 p ih => simpa [sample] using ih
  | case4 c p ih => simp only [sample, List.length_cons]; omega
  | case5 => exact le_refl _
  | case6 c p any one escape last ih =>
    rw [sample] <;> simp_all

theorem plain_of_sample {text : List Char} (same : sample text = text) : Plain text := by
  induction text using sample.induct with
  | case1 => exact fun _ hc => absurd hc List.not_mem_nil
  | case2 p ih =>
    have shorter := length_sample p
    have lengths := congrArg List.length same
    simp only [sample, List.length_cons] at lengths
    omega
  | case3 p ih => simp [sample] at same
  | case4 c p ih =>
    have shorter := length_sample p
    have lengths := congrArg List.length same
    simp only [sample, List.length_cons] at lengths
    omega
  | case5 => simp [sample] at same
  | case6 c p any one escape last ih =>
    have lit := not_special any one escape last
    rw [sample] at same <;> simp_all [Plain]

/-- A change of letters that leaves the special characters and `x` alone. -/
theorem sample_map {f : Char → Char} (special : ∀ c, IsSpecial c → f c = c)
    (origin : ∀ c, IsSpecial (f c) → f c = c) (letter : f 'x' = 'x') (text : List Char) :
    sample (text.map f) = (sample text).map f := by
  have any : f '%' = '%' := special _ (.inl rfl)
  have one : f '_' = '_' := special _ (.inr (.inl rfl))
  have escape : f '\\' = '\\' := special _ (.inr (.inr rfl))
  induction text using sample.induct with
  | case1 => rfl
  | case2 p ih => simp [sample, any, ih]
  | case3 p ih => simp [sample, one, letter, ih]
  | case4 c p ih => simp [sample, escape, ih]
  | case5 => simp [sample, escape, any]
  | case6 c p noAny noOne noEscape last ih =>
    have lit := not_special noAny noOne noEscape last
    have kept : ¬ IsSpecial (f c) := fun h => lit (origin c h ▸ h)
    rw [sample, List.map_cons, List.map_cons, ← ih, sample] <;> intros <;> simp_all [IsSpecial]

theorem plain_map {f : Char → Char} (special : ∀ c, IsSpecial c → f c = c)
    (origin : ∀ c, IsSpecial (f c) → f c = c) (text : List Char) :
    Plain (text.map f) ↔ Plain text := by
  simp only [Plain, List.forall_mem_map]
  refine forall₂_congr fun c _ => not_congr ⟨fun h => origin c h ▸ h, fun h => ?_⟩
  rw [special c h]
  exact h

end LikePattern
