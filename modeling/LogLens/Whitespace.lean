import LogLens.Masking

/-! What the last substitution does: every run of white space becomes one space, and the
characters between the runs stay. -/

namespace LogLens
open BacktrackingRegex

section Classes

/-- White space among ASCII characters and folded letters is the space at most. -/
def plainChar (c : Char) : Bool := (IsAscii c && (!asciiSpace c || c = ' ')) || c ∈ foldedLetters

/-- Of white space the class has the space at most. -/
def CharClass.plain : CharClass → Bool
  | .lit c => plainChar c
  | .anyOf chars ranges => chars.all plainChar && ranges.all alnumRange
  | .decimal => true
  | .letter c => (c :: c.toUpper :: caseFolds c).all plainChar
  | .noneOf _ | .space => false

variable [UnicodePlatform]

theorem not_isSpace_of_isWord {x : Char} (word : isWord x = true) : Platform.isSpace x = false :=
  Bool.eq_false_iff.mpr fun space => by
    rw [isWord_of_isSpace space] at word
    cases word

theorem eq_space_of_plainChar {c : Char} (plain : plainChar c = true)
    (space : Platform.isSpace c = true) : c = ' ' := by
  simp only [plainChar, Bool.or_eq_true, Bool.and_eq_true, Bool.not_eq_true', decide_eq_true_eq]
    at plain
  rcases plain with ⟨ascii, solid | same⟩ | folded
  · rw [Platform.isSpace_ascii c ascii, solid] at space
    cases space
  · exact same
  · have alnum := UnicodePlatform.isAlnum_folded c folded
    rw [UnicodePlatform.isAlnum_of_isSpace c space] at alnum
    cases alnum

/-- A class reads no white space but spaces. -/
theorem CharClass.eq_space_of_plain {k : CharClass} (plain : k.plain = true) {c : Char}
    (passes : k.test c = true) (space : Platform.isSpace c = true) : c = ' ' := by
  have notWord := isWord_of_isSpace space
  cases k with
  | lit d =>
    obtain rfl : c = d := by simpa [CharClass.test] using passes
    exact eq_space_of_plainChar plain space
  | anyOf chars ranges =>
    simp only [CharClass.plain, Bool.and_eq_true, List.all_eq_true] at plain
    simp only [CharClass.test, Bool.or_eq_true, decide_eq_true_eq, List.any_eq_true,
      Bool.and_eq_true] at passes
    rcases passes with listed | ⟨r, hr, within⟩
    · exact eq_space_of_plainChar (plain.1 c listed) space
    · obtain ⟨ascii, alnum⟩ := isAlphanum_of_alnumRange (plain.2 r hr) within
      rw [isWord_of_isAlphanum ascii alnum] at notWord
      cases notWord
  | decimal =>
    rw [isWord, UnicodePlatform.isAlnum_of_isDecimal c passes, Bool.true_or] at notWord
    cases notWord
  | letter d =>
    have listed : c ∈ d :: d.toUpper :: caseFolds d := by
      simpa [CharClass.test, or_assoc] using passes
    exact eq_space_of_plainChar (List.all_eq_true.mp plain c listed) space
  | noneOf | space => cases plain

/-- A class that reads no white space. -/
def CharClass.solid (k : CharClass) : Bool := k.plain && k.avoids ' '

theorem CharClass.not_isSpace_of_solid {k : CharClass} (solid : k.solid = true) {c : Char}
    (passes : k.test c = true) : Platform.isSpace c = false := by
  obtain ⟨plain, avoids⟩ := Bool.and_eq_true_iff.mp solid
  refine Bool.eq_false_iff.mpr fun space => ?_
  rw [CharClass.eq_space_of_plain plain passes space] at passes
  rw [CharClass.test_of_avoids (by decide) avoids] at passes
  cases passes

end Classes

section Collapsing
variable [Platform]

theorem isSpace_blank : Platform.isSpace ' ' = true := Platform.isSpace_ascii ' ' (by decide)

/-- `re.sub(r"\s+", " ", text)` -/
def collapse (text : Str) : Str := reSub Patterns.spaces (fixedText " ") text

/-- Runs of white space become single spaces. -/
inductive Collapses : (text result : Str) → Prop
  | nil : Collapses [] []
  | solid {c text result} (solid : Platform.isSpace c = false) (next : Collapses text result) :
      Collapses (c :: text) (c :: result)
  | gap {c text result} (space : Platform.isSpace c = true)
      (next : Collapses (text.dropWhile Platform.isSpace) result) :
      Collapses (c :: text) (' ' :: result)

theorem dropWhile_gap {gap rest : Str} (spaces : ∀ c ∈ gap, Platform.isSpace c = true)
    (stops : ∀ c ∈ rest.head?, Platform.isSpace c = false) :
    (gap ++ rest).dropWhile Platform.isSpace = rest := by
  rw [List.dropWhile_append_of_pos spaces]
  cases rest with
  | nil => rfl
  | cons c rest => simp [stops c rfl]

theorem collapses_of_scan {before text result : Str}
    (scan : Scan CharClass.test isWord Patterns.spaces (fixedText " ") before text result) :
    Collapses text result := by
  induction scan with
  | done => exact .nil
  | @keep before x rest result stuck next ih =>
    cases space : Platform.isSpace x with
    | true =>
      refine absurd ?_ (first_eq_none_iff.mp stuck [x] rest rfl)
      exact ⟨le_rfl, by simp, by simpa [CharClass.test] using space⟩
    | false => exact .solid space ih
  | @hit before text d result found next ih =>
    obtain ⟨u, here, -, long, -, spaces⟩ := reads_of_first found
    have stops := first_run_stops found
    cases u with
    | nil => simp at long
    | cons c u =>
      rw [List.forall_mem_cons] at spaces
      obtain rfl : text = c :: (u ++ d.after) := here
      exact .gap spaces.1 (by rwa [dropWhile_gap spaces.2 stops])

theorem collapses (text : Str) : Collapses text (collapse text) :=
  collapses_of_scan (sub_scan (by decide) _ text)

theorem Collapses.unique {text result result' : Str} (h : Collapses text result)
    (h' : Collapses text result') : result = result' := by
  induction h generalizing result' with
  | nil =>
    cases h'
    rfl
  | solid solid next ih =>
    cases h' with
    | solid _ next' => rw [ih next']
    | gap space => simp [solid] at space
  | gap space next ih =>
    cases h' with
    | solid solid => simp [solid] at space
    | gap _ next' => rw [ih next']

theorem dropWhile_append_solid {c : Char} (solid : Platform.isSpace c = false) (front rest : Str) :
    (front ++ c :: rest).dropWhile Platform.isSpace =
      front.dropWhile Platform.isSpace ++ c :: rest := by
  induction front with
  | nil => simp [solid]
  | cons d front ih =>
    cases space : Platform.isSpace d with
    | true => simp [space, ih]
    | false => simp [space]

/-- Around a solid character the text collapses in two parts. -/
theorem Collapses.join {front front' rest rest' : Str} (h : Collapses front front') {c : Char}
    (solid : Platform.isSpace c = false) (h' : Collapses rest rest') :
    Collapses (front ++ c :: rest) (front' ++ c :: rest') := by
  induction h with
  | nil => exact .solid solid h'
  | solid here next ih => exact .solid here ih
  | @gap d text result space next ih =>
    refine .gap space ?_
    change Collapses ((text ++ c :: rest).dropWhile Platform.isSpace) (result ++ c :: rest')
    rwa [dropWhile_append_solid solid]

theorem Collapses.split {text front' rest' : Str} {c : Char} (solid : Platform.isSpace c = false)
    (h : Collapses text (front' ++ c :: rest')) :
    ∃ front rest, text = front ++ c :: rest ∧ Collapses front front' ∧ Collapses rest rest' := by
  generalize whole : front' ++ c :: rest' = result at h
  induction h generalizing front' with
  | nil => simp at whole
  | @solid d text result here next ih =>
    cases front' with
    | nil =>
      obtain ⟨rfl, rfl⟩ := List.cons.inj whole
      exact ⟨[], text, rfl, .nil, next⟩
    | cons d' front' =>
      obtain ⟨rfl, rfl⟩ := List.cons.inj whole
      obtain ⟨front, rest, rfl, left, right⟩ := ih rfl
      exact ⟨d' :: front, rest, rfl, .solid here left, right⟩
  | @gap d text result space next ih =>
    cases front' with
    | nil =>
      obtain ⟨rfl, -⟩ := List.cons.inj whole
      rw [Platform.isSpace_ascii ' ' (by decide)] at solid
      cases solid
    | cons d' front' =>
      obtain ⟨rfl, rfl⟩ := List.cons.inj whole
      obtain ⟨front, rest, split, left, right⟩ := ih rfl
      have whole := List.takeWhile_append_dropWhile (p := Platform.isSpace) (l := text)
      rw [split] at whole
      refine ⟨d :: (text.takeWhile Platform.isSpace ++ front), rest, ?_, .gap space ?_, right⟩
      · rw [List.cons_append, List.append_assoc, whole]
      · rw [dropWhile_gap (fun c hc => List.mem_takeWhile_imp hc)]
        · exact left
        · intro x hx
          have stops := List.head?_dropWhile_not Platform.isSpace text
          cases front with
          | nil => cases hx
          | cons y front =>
            obtain rfl : y = x := by simpa using hx
            simpa [split] using stops

theorem Collapses.append_solid {front text result : Str} (h : Collapses text result)
    (solid : ∀ c ∈ front, Platform.isSpace c = false) :
    Collapses (front ++ text) (front ++ result) := by
  induction front with
  | nil => exact h
  | cons c front ih =>
    rw [List.forall_mem_cons] at solid
    exact .solid solid.1 (ih solid.2)

theorem Collapses.collapse_eq {text result : Str} (h : Collapses text result) :
    collapse text = result := (collapses text).unique h

theorem collapse_gap {c : Char} (space : Platform.isSpace c = true) (text : Str) :
    collapse (c :: text) = ' ' :: collapse (text.dropWhile Platform.isSpace) :=
  (Collapses.gap space (collapses _)).collapse_eq

theorem collapse_solid {front : Str} (solid : ∀ c ∈ front, Platform.isSpace c = false)
    (text : Str) : collapse (front ++ text) = front ++ collapse text :=
  ((collapses text).append_solid solid).collapse_eq

theorem collapse_append {front rest : Str} {c : Char} (solid : Platform.isSpace c = false) :
    collapse (front ++ c :: rest) = collapse front ++ c :: collapse rest :=
  ((collapses front).join solid (collapses rest)).collapse_eq

theorem Collapses.ne_nil {text result : Str} (h : Collapses text result) :
    text = [] ↔ result = [] := by
  cases h <;> simp

/-- A text begins with a solid character where its collapsed form does. -/
theorem Collapses.head_solid {text result : Str} (h : Collapses text result) {c : Char}
    (solid : Platform.isSpace c = false) : c ∈ text.head? ↔ c ∈ result.head? := by
  have blank : Platform.isSpace ' ' = true := Platform.isSpace_ascii ' ' (by decide)
  cases h with
  | nil => rfl
  | solid here next => rfl
  | gap space next =>
    constructor
    · intro first
      obtain rfl := Option.some.inj first
      simp [solid] at space
    · intro first
      obtain rfl := Option.some.inj first
      simp [solid] at blank

theorem head_dropWhile (text : Str) :
    ∀ x ∈ (text.dropWhile Platform.isSpace).head?, Platform.isSpace x = false := by
  intro x first
  have stops := List.head?_dropWhile_not Platform.isSpace text
  rw [first] at stops
  simpa using stops

theorem Collapses.head_stops {text result : Str} (h : Collapses text result)
    (stops : ∀ x ∈ text.head?, Platform.isSpace x = false) :
    ∀ x ∈ result.head?, Platform.isSpace x = false := by
  cases h with
  | nil => exact stops
  | solid here next => exact stops
  | gap space next => simp [space] at stops

theorem dropWhile_stops {text : Str} (stops : ∀ x ∈ text.head?, Platform.isSpace x = false) :
    text.dropWhile Platform.isSpace = text := by
  cases text with
  | nil => rfl
  | cons x text => simp [stops x rfl]

theorem Collapses.idem {text result : Str} (h : Collapses text result) :
    Collapses result result := by
  induction h with
  | nil => exact .nil
  | solid here next ih => exact .solid here ih
  | @gap c text result space next ih =>
    refine .gap (Platform.isSpace_ascii ' ' (by decide)) ?_
    rwa [dropWhile_stops (next.head_stops (head_dropWhile text))]

theorem Collapses.mem {text result : Str} (h : Collapses text result) :
    ∀ x ∈ result, x = ' ' ∨ (x ∈ text ∧ Platform.isSpace x = false) := by
  induction h with
  | nil => simp
  | solid here next ih =>
    rw [List.forall_mem_cons]
    refine ⟨.inr ⟨List.mem_cons_self, here⟩, fun x hx => (ih x hx).imp_right ?_⟩
    exact fun ⟨within, clear⟩ => ⟨List.mem_cons_of_mem _ within, clear⟩
  | @gap c text result space next ih =>
    rw [List.forall_mem_cons]
    refine ⟨.inl rfl, fun x hx => (ih x hx).imp_right fun ⟨within, clear⟩ => ⟨?_, clear⟩⟩
    exact List.mem_cons_of_mem _ ((List.dropWhile_sublist _).subset within)

theorem collapse_spaces {gap : Str} (spaces : ∀ c ∈ gap, Platform.isSpace c = true) :
    ∀ c ∈ collapse gap, Platform.isSpace c = true := by
  intro c hc
  rcases (collapses gap).mem c hc with rfl | ⟨within, solid⟩
  · exact Platform.isSpace_ascii ' ' (by decide)
  · simp [spaces c within] at solid

/-- A text that begins and ends in other characters than white space. -/
structure SolidEnds (s : Str) : Prop where
  some : s ≠ []
  first : ∀ x ∈ s.head?, Platform.isSpace x = false
  last : ∀ x ∈ s.getLast?, Platform.isSpace x = false

theorem SolidEnds.dropWhile_append {s : Str} (h : SolidEnds s) (front rest : Str) :
    (front ++ (s ++ rest)).dropWhile Platform.isSpace =
      front.dropWhile Platform.isSpace ++ (s ++ rest) := by
  obtain ⟨c, s, rfl⟩ := List.exists_cons_of_ne_nil h.some
  exact dropWhile_append_solid (h.first c rfl) front (s ++ rest)

theorem SolidEnds.reverse {s : Str} (h : SolidEnds s) : SolidEnds s.reverse where
  some := by simpa using h.some
  first x hx := h.last x (by simpa using hx)
  last x hx := h.first x (by simpa using hx)

/-- White space around a text that begins and ends in other characters. -/
theorem SolidEnds.strip_append {s : Str} (h : SolidEnds s) (front rest : Str) :
    strip (front ++ (s ++ rest)) = front.dropWhile Platform.isSpace ++
      (s ++ (rest.reverse.dropWhile Platform.isSpace).reverse) := by
  have behind : (front.dropWhile Platform.isSpace ++ (s ++ rest)).reverse =
      rest.reverse ++ (s.reverse ++ (front.dropWhile Platform.isSpace).reverse) := by
    simp
  rw [strip, h.dropWhile_append, behind, h.reverse.dropWhile_append]
  simp

theorem SolidEnds.collapse_append {s : Str} (h : SolidEnds s) (front rest : Str) :
    collapse (front ++ (s ++ rest)) = collapse front ++ (collapse s ++ collapse rest) := by
  obtain ⟨c, s, rfl⟩ := List.exists_cons_of_ne_nil h.some
  have head := h.first c rfl
  rcases List.eq_nil_or_concat' s with rfl | ⟨s, d, rfl⟩
  · have own : collapse [c] = [c] := @LogLens.collapse_append _ [] [] c head
    rw [own]
    exact LogLens.collapse_append head
  · have last := h.last d (List.getLast?_concat (l := c :: s))
    have whole : front ++ (c :: (s ++ [d]) ++ rest) = front ++ c :: (s ++ d :: rest) := by simp
    have own : collapse (c :: (s ++ [d])) = c :: (collapse s ++ [d]) :=
      calc collapse ([] ++ c :: (s ++ [d]))
        _ = c :: collapse (s ++ [d]) := LogLens.collapse_append head
        _ = c :: (collapse s ++ [d]) := congrArg _ (LogLens.collapse_append last)
    rw [whole, LogLens.collapse_append head, LogLens.collapse_append last, own]
    simp

theorem SolidEnds.collapse {s : Str} (h : SolidEnds s) : SolidEnds (collapse s) where
  some none := h.some ((collapses s).ne_nil.mpr none)
  first := (collapses s).head_stops h.first
  last x hx := by
    obtain ⟨s, d, rfl⟩ := (List.eq_nil_or_concat' s).resolve_left h.some
    have last := h.last d (by simp)
    rw [LogLens.collapse_append last, List.getLast?_append, List.getLast?_cons] at hx
    obtain rfl : d = x := by simpa [LogLens.collapse, reSub, sub, subFrom] using hx
    exact last

theorem strip_solidEnds {text : Str} (some : strip text ≠ []) : SolidEnds (strip text) where
  some := some
  first x hx := by
    have whole := congrArg List.reverse (List.takeWhile_append_dropWhile (p := Platform.isSpace)
      (l := (text.dropWhile Platform.isSpace).reverse))
    rw [List.reverse_append, List.reverse_reverse] at whole
    change strip text ++ _ = _ at whole
    refine head_dropWhile text x ?_
    rw [← whole, List.head?_append, hx]
    rfl
  last x hx := by
    unfold strip at hx
    rw [List.getLast?_reverse] at hx
    exact head_dropWhile _ x hx

/-- White space around a text does not matter to what is left of it. -/
theorem strip_collapse (text : Str) : strip (collapse text) = collapse (strip text) := by
  obtain ⟨front, rest, split, spaces, spaces'⟩ := strip_split text
  have blank {gap : Str} (gaps : ∀ c ∈ gap, Platform.isSpace c = true) :
      gap.dropWhile Platform.isSpace = [] := List.dropWhile_eq_nil_iff.mpr gaps
  by_cases none : strip text = []
  · have all : ∀ c ∈ collapse text, Platform.isSpace c = true := by
      refine collapse_spaces fun c hc => ?_
      rw [split, none, List.nil_append, List.mem_append] at hc
      exact hc.elim (spaces c) (spaces' c)
    rw [none, strip, blank all]
    rfl
  · have ends := (strip_solidEnds none).collapse
    have behind : ∀ c ∈ (collapse rest).reverse, Platform.isSpace c = true := fun c hc =>
      collapse_spaces spaces' c (List.mem_reverse.mp hc)
    have parts : collapse text = collapse front ++ (collapse (strip text) ++ collapse rest) :=
      (congrArg collapse split).trans ((strip_solidEnds none).collapse_append front rest)
    rw [parts, ends.strip_append, blank (collapse_spaces spaces), blank behind]
    simp

end Collapsing

end LogLens
