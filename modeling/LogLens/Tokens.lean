import LogLens.Whitespace

/-! The tokens of a text: its longest parts without white space. Texts with the same tokens
differ in the white space around them alone. -/

namespace LogLens

section Tokens
variable [Platform]

/-- `text.split()` -/
def tokens (text : Str) : List Str := (text.splitOnP Platform.isSpace).filter fun t => !t.isEmpty

theorem tokens_append_cons {c : Char} (space : Platform.isSpace c = true) (u v : Str) :
    tokens (u ++ c :: v) = tokens u ++ tokens v := by
  rw [tokens, List.splitOnP_append_cons u v space, List.filter_append]
  rfl

theorem tokens_solid {t : Str} (solid : ∀ c ∈ t, Platform.isSpace c = false) :
    tokens t = if t = [] then [] else [t] := by
  rw [tokens, List.splitOnP_eq_singleton solid]
  cases t <;> rfl

omit [Platform] in
/-- A text is clear of a kind of characters, or it begins with a part that one of them ends. -/
theorem clear_or_split (kind : Char → Bool) (text : Str) : (∀ c ∈ text, kind c = false) ∨
    ∃ t c rest, text = t ++ c :: rest ∧ (∀ x ∈ t, kind x = false) ∧ kind c = true := by
  induction text with
  | nil => exact .inl (by simp)
  | cons c text ih =>
    cases own : kind c with
    | true => exact .inr ⟨[], c, text, rfl, by simp, own⟩
    | false =>
      rcases ih with clear | ⟨t, d, rest, rfl, clear, ends⟩
      · exact .inl (List.forall_mem_cons.mpr ⟨own, clear⟩)
      · exact .inr ⟨c :: t, d, rest, rfl, List.forall_mem_cons.mpr ⟨own, clear⟩, ends⟩

theorem mem_tokens {text w : Str} (h : w ∈ tokens text) :
    w ≠ [] ∧ ∀ c ∈ w, Platform.isSpace c = false := by
  induction size : text.length using Nat.strong_induction_on generalizing text with
  | _ n ih =>
    subst size
    have own {t : Str} (solid : ∀ c ∈ t, Platform.isSpace c = false) (h : w ∈ tokens t) :
        w ≠ [] ∧ ∀ c ∈ w, Platform.isSpace c = false := by
      rw [tokens_solid solid] at h
      split at h
      · cases h
      · rename_i some
        obtain rfl := List.mem_singleton.mp h
        exact ⟨some, solid⟩
    rcases clear_or_split Platform.isSpace text with solid | ⟨t, c, rest, rfl, solid, space⟩
    · exact own solid h
    · rw [tokens_append_cons space, List.mem_append] at h
      refine h.elim (own solid) fun later => ih rest.length ?_ later rfl
      rw [List.length_append, List.length_cons]
      omega

theorem tokens_gap {gap : Str} (spaces : ∀ c ∈ gap, Platform.isSpace c = true) (text : Str) :
    tokens (gap ++ text) = tokens text := by
  induction gap with
  | nil => rfl
  | cons c gap ih =>
    rw [List.forall_mem_cons] at spaces
    exact (tokens_append_cons spaces.1 [] (gap ++ text)).trans (ih spaces.2)

theorem tokens_append_gap {gap : Str} (spaces : ∀ c ∈ gap, Platform.isSpace c = true)
    (text : Str) : tokens (text ++ gap) = tokens text := by
  cases gap with
  | nil => rw [List.append_nil]
  | cons c gap =>
    have none := tokens_gap (List.forall_mem_cons.mp spaces).2 []
    rw [List.append_nil] at none
    rw [tokens_append_cons (spaces c List.mem_cons_self), none]
    exact List.append_nil _

theorem tokens_strip (text : Str) : tokens (strip text) = tokens text := by
  obtain ⟨left, right, split, spaces, spaces'⟩ := strip_split text
  rw [split, tokens_gap spaces, tokens_append_gap spaces', ← split]

theorem tokens_dropWhile (text : Str) :
    tokens (text.dropWhile Platform.isSpace) = tokens text := by
  have gap := @tokens_gap _ (text.takeWhile Platform.isSpace)
    (fun c hc => List.mem_takeWhile_imp hc) (text.dropWhile Platform.isSpace)
  rwa [List.takeWhile_append_dropWhile, eq_comm] at gap

theorem Collapses.tokens {text result : Str} (h : Collapses text result) {front : Str}
    (solid : ∀ c ∈ front, Platform.isSpace c = false) :
    tokens (front ++ text) = tokens (front ++ result) := by
  induction h generalizing front with
  | nil => rfl
  | @solid c text result here next ih =>
    have longer : ∀ d ∈ front ++ [c], Platform.isSpace d = false := by
      simpa [or_imp, forall_and, here] using solid
    simpa using ih longer
  | @gap c text result space next ih =>
    have blank : Platform.isSpace ' ' = true := Platform.isSpace_ascii ' ' (by decide)
    have behind := @ih [] (by simp)
    rw [tokens_append_cons space, tokens_append_cons blank, ← tokens_dropWhile text]
    exact congrArg _ behind

theorem tokens_collapse (text : Str) : tokens (collapse text) = tokens text :=
  have same := @Collapses.tokens _ _ _ (collapses text) [] (by simp)
  same.symm

/-- A word and what white space parts from it. -/
theorem tokens_word {t tail : Str} (some : t ≠ []) (solid : ∀ c ∈ t, Platform.isSpace c = false)
    (blank : ∀ c ∈ tail.head?, Platform.isSpace c = true) :
    tokens (t ++ tail) = t :: tokens tail := by
  cases tail with
  | nil =>
    rw [List.append_nil, tokens_solid solid, if_neg some]
    rfl
  | cons c tail =>
    have space := blank c rfl
    have behind := tokens_append_cons space [] tail
    rw [tokens_append_cons space, tokens_solid solid, if_neg some]
    exact congrArg (t :: ·) behind.symm

/-- A text with as many parts as it can have has one more than it has white space. -/
theorem length_tokens_le (text : Str) :
    (tokens text).length ≤ text.countP Platform.isSpace + 1 := by
  induction size : text.length using Nat.strong_induction_on generalizing text with
  | _ n ih =>
    subst size
    have own {t : Str} (solid : ∀ c ∈ t, Platform.isSpace c = false) : (tokens t).length ≤ 1 := by
      rw [tokens_solid solid]
      split <;> simp
    rcases clear_or_split Platform.isSpace text with solid | ⟨t, c, rest, rfl, solid, space⟩
    · exact (own solid).trans (Nat.le_add_left 1 _)
    · have later := ih rest.length (by rw [List.length_append, List.length_cons]; omega) rest rfl
      have first := own solid
      rw [tokens_append_cons space, List.length_append, List.countP_append,
        List.countP_cons_of_pos space]
      omega

end Tokens

section Joining

theorem joinWith_cons_cons (sep w : Str) (v : Str) (words : List Str) :
    joinWith sep (w :: v :: words) = w ++ (sep ++ joinWith sep (v :: words)) := by
  rw [joinWith, List.intercalate_cons_cons, joinWith, List.append_assoc]

variable [Platform] {c : Char} {words : List Str}

/-- Tokens with white space between them are the tokens of the whole. -/
theorem tokens_joinWith (space : Platform.isSpace c = true)
    (each : ∀ w ∈ words, w ≠ [] ∧ ∀ x ∈ w, Platform.isSpace x = false) :
    tokens (joinWith [c] words) = words := by
  induction words with
  | nil => rfl
  | cons w words ih =>
    rw [List.forall_mem_cons] at each
    have own : tokens w = [w] := by rw [tokens_solid each.1.2, if_neg each.1.1]
    cases words with
    | nil => rw [joinWith, List.intercalate_singleton, own]
    | cons v words =>
      rw [joinWith_cons_cons, List.singleton_append, tokens_append_cons space, own, ih each.2]
      rfl

theorem countP_joinWith (space : Platform.isSpace c = true)
    (each : ∀ w ∈ words, ∀ x ∈ w, Platform.isSpace x = false) (some : words ≠ []) :
    (joinWith [c] words).countP Platform.isSpace + 1 = words.length := by
  induction words with
  | nil => exact absurd rfl some
  | cons w words ih =>
    rw [List.forall_mem_cons] at each
    have own : w.countP Platform.isSpace = 0 := List.countP_eq_zero.mpr (by simpa using each.1)
    cases words with
    | nil => simpa [joinWith] using own
    | cons v words =>
      have next := ih each.2 (List.cons_ne_nil v words)
      rw [joinWith_cons_cons, List.singleton_append, List.countP_append,
        List.countP_cons_of_pos space, own, List.length_cons, ← next]
      omega

omit [Platform] in
/-- Around a separator stand the words before it and the words behind it. -/
theorem joinWith_eq_append {front rest : Str} (free : ∀ w ∈ words, c ∉ w)
    (split : joinWith [c] words = front ++ c :: rest) :
    ∃ a b, words = a ++ b ∧ b ≠ [] ∧ front = joinWith [c] a ∧ rest = joinWith [c] b ∧ a ≠ [] := by
  induction words generalizing front with
  | nil => simp [joinWith] at split
  | cons w words ih =>
    rw [List.forall_mem_cons] at free
    cases words with
    | nil =>
      rw [joinWith, List.intercalate_singleton] at split
      exact absurd (by simp [split]) free.1
    | cons v words =>
      rw [joinWith_cons_cons, List.singleton_append] at split
      have own : joinWith [c] [w] = w := by rw [joinWith, List.intercalate_singleton]
      have first {z : Str} (past : c :: joinWith [c] (v :: words) = z ++ c :: rest)
          (whole : front = w ++ z) : ∃ a b, w :: v :: words = a ++ b ∧ b ≠ [] ∧
            front = joinWith [c] a ∧ rest = joinWith [c] b ∧ a ≠ [] := by
        subst whole
        cases z with
        | nil =>
          obtain ⟨-, rfl⟩ := List.cons.inj past
          exact ⟨[w], v :: words, rfl, List.cons_ne_nil _ _, by rw [own, List.append_nil], rfl,
            List.cons_ne_nil _ _⟩
        | cons x z =>
          obtain ⟨rfl, next⟩ := List.cons.inj past
          obtain ⟨a, b, listed, some, rfl, rfl, some'⟩ := ih free.2 next
          obtain ⟨x, a, rfl⟩ := List.exists_cons_of_ne_nil some'
          refine ⟨w :: x :: a, b, congrArg (w :: ·) listed, some, ?_, rfl,
            List.cons_ne_nil _ _⟩
          rw [joinWith_cons_cons, List.singleton_append]
      rcases List.append_eq_append_iff.mp split with ⟨z, whole, past⟩ | ⟨z, rfl, past⟩
      · exact first past whole
      · cases z with
        | nil => exact @first [] past.symm (by simp)
        | cons x z =>
          obtain ⟨rfl, -⟩ := List.cons.inj past
          exact absurd (by simp) free.1

/-- Behind a gap the text begins and ends in other characters again. -/
theorem SolidEnds.behind_gap {t rest : Str} (ends : SolidEnds (t ++ c :: rest))
    (space : Platform.isSpace c = true) : SolidEnds (rest.dropWhile Platform.isSpace) where
  some none := by
    have all : ∀ x ∈ rest, Platform.isSpace x = true := List.dropWhile_eq_nil_iff.mp none
    obtain ⟨front, d, last⟩ := (List.eq_nil_or_concat' (c :: rest)).resolve_left (by simp)
    have solid := ends.last d (by rw [last, ← List.append_assoc]; simp)
    have inside : d ∈ c :: rest := by simp [last]
    rcases List.mem_cons.mp inside with rfl | inside
    · simp [solid] at space
    · simp [all d inside] at solid
  first := head_dropWhile rest
  last x hx := by
    refine ends.last x ?_
    rw [← List.takeWhile_append_dropWhile (p := Platform.isSpace) (l := rest), ← List.cons_append,
      ← List.append_assoc, List.getLast?_append, hx]
    rfl

/-- What is left of a text without the white space around it, and with one space for each
gap, is its tokens with a space between them. -/
theorem collapse_solidEnds {text : Str} (ends : SolidEnds text) :
    collapse text = joinWith [' '] (tokens text) := by
  induction size : text.length using Nat.strong_induction_on generalizing text with
  | _ n ih =>
    subst size
    rcases clear_or_split Platform.isSpace text with solid | ⟨t, c, rest, rfl, solid, space⟩
    · have own : collapse (text ++ []) = text ++ [] := collapse_solid solid []
      rw [List.append_nil] at own
      rw [own, tokens_solid solid, if_neg ends.some, joinWith, List.intercalate_singleton]
    · have someFirst : t ≠ [] := by
        rintro rfl
        simp [ends.first c rfl] at space
      have behind := ends.behind_gap space
      have shorter : (rest.dropWhile Platform.isSpace).length < (t ++ c :: rest).length := by
        have within := (List.dropWhile_sublist Platform.isSpace (l := rest)).length_le
        rw [List.length_append, List.length_cons]
        omega
      have next := ih _ shorter behind rfl
      obtain ⟨v, words, listed⟩ : ∃ v words, tokens (rest.dropWhile Platform.isSpace) =
          v :: words := by
        refine List.exists_cons_of_ne_nil fun none => behind.collapse.some ?_
        rw [next, none]
        rfl
      rw [collapse_solid solid, collapse_gap space, next, tokens_append_cons space,
        tokens_solid solid, if_neg someFirst, ← tokens_dropWhile rest, listed,
        List.singleton_append, joinWith_cons_cons, List.singleton_append]

theorem collapse_strip (text : Str) : collapse (strip text) = joinWith [' '] (tokens text) := by
  rw [← tokens_strip text]
  by_cases none : strip text = []
  · rw [none]
    rfl
  · exact collapse_solidEnds (strip_solidEnds none)

end Joining

end LogLens
