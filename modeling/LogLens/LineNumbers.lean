import LogLens.MaskedNumerals

/-! A number behind a colon, as in `app.js:42`: the substitutions leave it until they mask it
by the number of its digits, or a label rule takes it. -/

namespace LogLens
open BacktrackingRegex

section Locations
variable [Platform]

/-- The signs inside paths and mail addresses. -/
def pathSigns : List Char := ['.', '%', '+', '-', '@']

/-- No word, path or mail address goes on with the character. -/
def endsLocation (c : Char) : Bool := !isWord c && c ∉ pathSigns

/-- A number is at its end before the text: signs may follow, but no word behind them. -/
def EndsNumber (after : Str) : Prop := wordAt isWord (after.dropWhile (· ∈ pathSigns)) = false

def NoDigitEnd (before : Str) : Prop := ∀ c ∈ before.getLast?, Platform.isDecimal c = false

/-- The text before the colon of a number: a path, or a path with its line number. -/
def Located (before : Str) : Prop :=
  NoDigitEnd before ∨
    ∃ path line, before = path ++ ':' :: line ∧ NoDigitEnd path ∧ Numeral line

def numbered (before n after : Str) : Str := before ++ ':' :: (n ++ after)

/-- The step leaves the numbers, and makes `before'` of the text before them. -/
def Keeps (f : Str → Str) (before before' : Str) : Prop :=
  ∀ after, EndsNumber after → ∃ after', EndsNumber after' ∧ (after = [] → after' = []) ∧
    ∀ n, Numeral n → f (numbered before n after) = numbered before' n after'

/-- The step takes the numbers, whatever they are. -/
def Swallows (f : Str → Str) (before : Str) : Prop :=
  ∀ after, EndsNumber after → ∃ out, (after = [] → '>' ∈ out.getLast?) ∧
    ∀ n, Numeral n → f (numbered before n after) = out

theorem Keeps.comp {f g : Str → Str} {before before' before'' : Str} (hf : Keeps f before before')
    (hg : Keeps g before' before'') : Keeps (g ∘ f) before before'' := by
  intro after ends
  obtain ⟨after', ends', nil, same⟩ := hf after ends
  obtain ⟨after'', ends'', nil', same'⟩ := hg after' ends'
  exact ⟨after'', ends'', fun none => nil' (nil none), fun n numeral => by
    rw [Function.comp, same n numeral, same' n numeral]⟩

theorem Keeps.swallows {f g : Str → Str} {before before' : Str} (hf : Keeps f before before')
    (hg : Swallows g before') : Swallows (g ∘ f) before := by
  intro after ends
  obtain ⟨after', ends', nil, same⟩ := hf after ends
  obtain ⟨out, closed, same'⟩ := hg after' ends'
  exact ⟨out, fun none => closed (nil none), fun n numeral => by
    rw [Function.comp, same n numeral, same' n numeral]⟩

theorem Swallows.comp {f g : Str → Str} {before : Str} (hf : Swallows f before)
    (closes : ∀ text : Str, '>' ∈ text.getLast? → '>' ∈ (g text).getLast?) :
    Swallows (g ∘ f) before := by
  intro after ends
  obtain ⟨out, closed, same⟩ := hf after ends
  exact ⟨g out, fun none => closes out (closed none), fun n numeral => by
    rw [Function.comp, same n numeral]⟩

end Locations

section Values

/-- A character of a word, a path or a mail address. -/
def pathChar (c : Char) : Bool :=
  (c.isAlphanum && IsAscii c) || c = '_' || c ∈ pathSigns

/-- The class has such characters only. -/
def CharClass.pathClass : CharClass → Bool
  | .lit c => pathChar c
  | .anyOf chars ranges => chars.all pathChar && ranges.all alnumRange
  | .decimal => true
  | .noneOf _ | .space | .letter _ => false

variable [UnicodePlatform]

theorem isWord_pathSigns {c : Char} (sign : c ∈ pathSigns) : isWord c = false := by
  have plain : ∀ c ∈ pathSigns, IsAscii c ∧ c.isAlphanum = false ∧ c ≠ '_' := by decide
  obtain ⟨ascii, notAlnum, other⟩ := plain c sign
  rw [isWord, Platform.isAlnum_ascii c ascii, notAlnum]
  simpa using other

theorem not_endsLocation_of_pathChar {c : Char} (path : pathChar c = true) :
    endsLocation c = false := by
  simp only [pathChar, Bool.or_eq_true, Bool.and_eq_true, decide_eq_true_eq] at path
  rcases path with (⟨alnum, ascii⟩ | rfl) | sign
  · rw [endsLocation, isWord_of_isAlphanum ascii alnum]
    rfl
  · rw [endsLocation, isWord]
    simp
  · simp [endsLocation, sign]

theorem CharClass.test_of_endsLocation {k : CharClass} (path : k.pathClass = true) {c : Char}
    (ends : endsLocation c = true) : k.test c = false := by
  refine Bool.eq_false_iff.mpr fun passes => ?_
  have notPath {d : Char} (path : pathChar d = true) : c ≠ d := by
    rintro rfl
    rw [not_endsLocation_of_pathChar path] at ends
    cases ends
  have notWord : isWord c = false := by
    simp only [endsLocation, Bool.and_eq_true, Bool.not_eq_true'] at ends
    exact ends.1
  cases k with
  | lit d => exact notPath path (by simpa [CharClass.test] using passes)
  | anyOf chars ranges =>
    simp only [CharClass.pathClass, Bool.and_eq_true, List.all_eq_true] at path
    simp only [CharClass.test, Bool.or_eq_true, decide_eq_true_eq, List.any_eq_true,
      Bool.and_eq_true] at passes
    rcases passes with listed | ⟨r, hr, within⟩
    · exact notPath (path.1 c listed) rfl
    · obtain ⟨ascii, alnum⟩ := isAlphanum_of_alnumRange (path.2 r hr) within
      rw [isWord_of_isAlphanum ascii alnum] at notWord
      cases notWord
  | decimal =>
    rw [isWord, UnicodePlatform.isAlnum_of_isDecimal c passes, Bool.true_or] at notWord
    cases notWord
  | noneOf | space | letter => cases path

theorem endsLocation_colon : endsLocation ':' = true := by
  rw [endsLocation, isWord_mark (by simp)]
  decide

theorem isWord_of_endsLocation {c : Char} (ends : endsLocation c = true) : isWord c = false := by
  simp only [endsLocation, Bool.and_eq_true, Bool.not_eq_true'] at ends
  exact ends.1

/-- No pattern of words, paths and addresses reads across the end of a location. -/
theorem reSub_endsLocation {p : Pattern CharClass} {w : String}
    (path : ∀ k ∈ p.classes ++ p.lookbehind, k.pathClass = true) {c : Char}
    (ends : endsLocation c = true) (u v : Str) :
    reSub p (fixedText w) (u ++ c :: v) =
      reSub p (fixedText w) u ++ c :: reSub p (fixedText w) v :=
  sub_barrier (fun _ _ _ => rfl) (isWord_of_endsLocation ends)
    (fun k hk => CharClass.test_of_endsLocation (path k (List.mem_append_right _ hk)) ends)
    (fun k hk => CharClass.test_of_endsLocation (path k (List.mem_append_left _ hk)) ends)

/-- Behind the signs that follow a number the text ends, or a location does. -/
theorem EndsNumber.cases {after : Str} (ends : EndsNumber after) :
    ∃ signs, (∀ c ∈ signs, c ∈ pathSigns) ∧
      (after = signs ∨ ∃ c rest, after = signs ++ c :: rest ∧ endsLocation c = true) := by
  refine ⟨after.takeWhile (· ∈ pathSigns), fun c hc => ?_, ?_⟩
  · simpa using List.mem_takeWhile_imp hc
  · have whole := List.takeWhile_append_dropWhile (p := (· ∈ pathSigns)) (l := after)
    have stops := List.head?_dropWhile_not (· ∈ pathSigns) after
    unfold EndsNumber at ends
    cases rest : after.dropWhile (· ∈ pathSigns) with
    | nil =>
      rw [rest, List.append_nil] at whole
      exact .inl whole.symm
    | cons c rest' =>
      rw [rest] at whole stops ends
      have other : c ∉ pathSigns := by simpa using stops
      refine .inr ⟨c, rest', whole.symm, ?_⟩
      rw [wordAt] at ends
      simp [endsLocation, ends, other]

theorem endsNumber_append {signs rest : Str} (all : ∀ c ∈ signs, c ∈ pathSigns) {c : Char}
    (ends : endsLocation c = true) : EndsNumber (signs ++ c :: rest) := by
  simp only [endsLocation, Bool.and_eq_true, Bool.not_eq_true', decide_eq_true_eq] at ends
  have past : (signs ++ c :: rest).dropWhile (· ∈ pathSigns) = c :: rest := by
    rw [List.dropWhile_append_of_pos (by simpa using all)]
    simp [ends.2]
  rw [EndsNumber, past]
  exact ends.1

theorem EndsNumber.wordAt {after : Str} (ends : EndsNumber after) :
    wordAt isWord after = false := by
  cases after with
  | nil => rfl
  | cons c after =>
    by_cases sign : c ∈ pathSigns
    · exact isWord_pathSigns sign
    · simpa [EndsNumber, sign] using ends

/-- A match that ends in a word, of a number and the signs behind it, reads digits only. -/
theorem digits_of_reads {p : Pattern CharClass}
    (lasts : ∀ k ∈ p.lasts, k.wordClass = true) {n signs : Str}
    (all : ∀ c ∈ signs, c ∈ pathSigns) {front u rest before after : Str}
    (split : n ++ signs = front ++ (u ++ rest))
    (reads : Reads CharClass.test isWord p before u after) : ∀ c ∈ u, c ∈ n := by
  obtain rfl | ⟨v, x, rfl⟩ := List.eq_nil_or_concat' u
  · simp
  · obtain ⟨k, hk, passes⟩ := reads.lasts x (by simp)
    have word := CharClass.isWord_of_test (lasts k hk) passes
    rw [← List.append_assoc, List.append_eq_append_iff] at split
    rcases split with ⟨z, whole, behind⟩ | ⟨z, rfl, -⟩
    · cases List.eq_nil_or_concat' z with
      | inl none =>
        rw [none, List.append_nil] at whole
        rw [← whole]
        exact fun c hc => List.mem_append_right front hc
      | inr last =>
        obtain ⟨z', y, rfl⟩ := last
        have same : x = y := by
          have ends := congrArg List.getLast? whole
          simpa using ends
        rw [same, isWord_pathSigns (all y (by simp [behind]))] at word
        cases word
    · intro c hc
      simp only [List.mem_append] at hc ⊢
      exact .inl (.inr hc)

theorem EndsNumber.of_append {u v : Str} (ends : EndsNumber (u ++ v)) : EndsNumber u := by
  rw [EndsNumber, List.dropWhile_append] at ends
  rw [EndsNumber]
  split at ends
  · rename_i none
    rw [List.isEmpty_iff.mp none]
    rfl
  · rename_i some
    rwa [wordAt_append_of_ne_nil (by simpa using some)] at ends

theorem leaves_digits {p : Pattern CharClass} {w : String} (some : 0 < p.least)
    (lasts : ∀ k ∈ p.lasts, k.wordClass = true) {c : Char}
    (required : p.required.any (CharClass.isLit c) = true) (missing : c.isDigit = false)
    {n signs : Str} (numeral : Numeral n) (all : ∀ c ∈ signs, c ∈ pathSigns) :
    reSub p (fixedText w) (n ++ signs) = n ++ signs := by
  refine sub_eq_self some ?_
  rintro ⟨front, u, rest, split, reads⟩
  obtain ⟨k, hk, isLit⟩ := List.any_eq_true.mp required
  obtain ⟨x, hx, passes⟩ := reads.required k hk
  have digit := numeral.digits x (digits_of_reads lasts all split reads x hx)
  rw [(test_isLit isLit x).mp passes, missing] at digit
  cases digit

/-- A step that splits a text before the number of a location, and behind it. -/
theorem keeps_of_splits {f : Str → Str} {before : Str}
    (colon : ∀ v, f (before ++ ':' :: v) = f before ++ ':' :: f v)
    (leaves : ∀ n signs, Numeral n → (∀ c ∈ signs, c ∈ pathSigns) → f (n ++ signs) = n ++ signs)
    (splits : ∀ n signs, Numeral n → (∀ c ∈ signs, c ∈ pathSigns) → ∀ c, endsLocation c = true →
      ∀ v, f (n ++ signs ++ c :: v) = f (n ++ signs) ++ c :: f v) : Keeps f before (f before) := by
  intro after ends
  obtain ⟨signs, all, rfl | ⟨c, rest, rfl, here⟩⟩ := ends.cases
  · refine ⟨after, ends, fun none => none, fun n numeral => ?_⟩
    rw [numbered, colon, leaves n after numeral all, numbered]
  · refine ⟨signs ++ c :: f rest, endsNumber_append all here, by simp, fun n numeral => ?_⟩
    rw [numbered, colon, ← List.append_assoc, splits n signs numeral all c here,
      leaves n signs numeral all, numbered, List.append_assoc]

theorem keeps_missing {p : Pattern CharClass} {w : String} (some : 0 < p.least)
    (lasts : ∀ k ∈ p.lasts, k.wordClass = true)
    (path : ∀ k ∈ p.classes ++ p.lookbehind, k.pathClass = true) {c : Char}
    (required : p.required.any (CharClass.isLit c) = true) (missing : c.isDigit = false)
    (before : Str) : Keeps (reSub p (fixedText w)) before (reSub p (fixedText w) before) :=
  keeps_of_splits (reSub_endsLocation path endsLocation_colon before)
    (fun _ _ numeral all => leaves_digits some lasts required missing numeral all)
    (fun _ _ _ _ _ here => reSub_endsLocation path here _)

theorem keeps_strip (before : Str) : Keeps strip before (before.dropWhile Platform.isSpace) := by
  intro after ends
  have colon : Platform.isSpace ':' = false := Platform.isSpace_ascii ':' (by decide)
  refine ⟨(after.reverse.dropWhile Platform.isSpace).reverse, ?_, by rintro rfl; rfl, ?_⟩
  · have start : (after.reverse.dropWhile Platform.isSpace).reverse <+: after := by
      have tail := List.reverse_prefix.mpr (List.dropWhile_suffix (l := after.reverse)
        Platform.isSpace)
      rwa [List.reverse_reverse] at tail
    obtain ⟨z, whole⟩ := start
    rw [← whole] at ends
    exact ends.of_append
  · intro n numeral
    have ends : SolidEnds (':' :: n) := by
      refine ⟨List.cons_ne_nil _ n, by simpa using colon, fun x hx => ?_⟩
      rcases List.mem_cons.mp (List.mem_of_getLast? hx) with rfl | digit
      · exact colon
      · exact numeral.solid x digit
    exact ends.strip_append before after

theorem isDecimal_of_endsLocation {c : Char} (ends : endsLocation c = true) :
    Platform.isDecimal c = false :=
  CharClass.test_of_endsLocation (k := .decimal) rfl ends

theorem noDigitEnd_append {u v : Str} (some : v ≠ []) : NoDigitEnd (u ++ v) ↔ NoDigitEnd v := by
  unfold NoDigitEnd
  rw [List.getLast?_append_of_ne_nil u some]

theorem Located.dropWhile {before : Str} (located : Located before) :
    Located (before.dropWhile Platform.isSpace) := by
  rcases located with plain | ⟨path, line, rfl, plain, numeral⟩
  · by_cases none : before.dropWhile Platform.isSpace = []
    · exact .inl (by simp [none, NoDigitEnd])
    · refine .inl ((noDigitEnd_append (u := before.takeWhile Platform.isSpace) none).mp ?_)
      rwa [List.takeWhile_append_dropWhile]
  · rw [dropWhile_append_solid (Platform.isSpace_ascii ':' (by decide))]
    refine .inr ⟨_, line, rfl, ?_, numeral⟩
    by_cases none : path.dropWhile Platform.isSpace = []
    · simp [none, NoDigitEnd]
    · refine (noDigitEnd_append (u := path.takeWhile Platform.isSpace) none).mp ?_
      rwa [List.takeWhile_append_dropWhile]

/-- A rule that places a bracket last makes no digit the end of a text. -/
theorem NoDigitEnd.reSub {text : Str} (plain : NoDigitEnd text) {p : Pattern CharClass}
    {w : String} (some : 0 < p.least) (placed : '>' ∈ w.toList.getLast?) :
    NoDigitEnd (LogLens.reSub p (fixedText w) text) := by
  have bracket : Platform.isDecimal '>' = false := Platform.isDecimal_ascii '>' (by decide)
  have kept {before text result : Str} (plain : NoDigitEnd text)
      (scan : Scan CharClass.test isWord p (fixedText w) before text result) :
      NoDigitEnd result ∧ (result = [] → text = []) := by
    have placed' : w.toList ≠ [] := by
      intro none
      simp [none] at placed
    induction scan with
    | done => exact ⟨plain, fun _ => rfl⟩
    | @keep before x rest result stuck next ih =>
      refine ⟨?_, by simp⟩
      have inner : NoDigitEnd rest := by
        by_cases none : rest = []
        · simp [none, NoDigitEnd]
        · exact (noDigitEnd_append (u := [x]) none).mp plain
      by_cases none : result = []
      · obtain rfl := (ih inner).2 none
        rwa [none]
      · exact (noDigitEnd_append (u := [x]) none).mpr (ih inner).1
    | @hit before text d result found next ih =>
      refine ⟨?_, fun none => absurd (List.append_eq_nil_iff.mp none).1 placed'⟩
      obtain ⟨u, here, -⟩ := reads_of_first found
      dsimp only at here
      have inner : NoDigitEnd d.after := by
        by_cases none : d.after = []
        · simp [none, NoDigitEnd]
        · rw [here] at plain
          exact (noDigitEnd_append none).mp plain
      by_cases none : result = []
      · intro c hc
        rw [none, List.append_nil] at hc
        obtain rfl : '>' = c := Option.some.inj (Eq.trans (Eq.symm placed) hc)
        exact bracket
      · exact (noDigitEnd_append none).mpr (ih inner).1
  exact (kept plain (sub_scan some _ text)).1

end Values

section Timestamps

/-- A run of `P` and the character outside `P` that ends it are at one place of a text. -/
theorem first_split_unique {P : Char → Bool} {u v u' v' : Str} {c c' : Char} (hc : P c = false)
    (hc' : P c' = false) (all : ∀ x ∈ u, P x = true) (all' : ∀ x ∈ u', P x = true)
    (same : u ++ c :: v = u' ++ c' :: v') : u = u' ∧ c = c' ∧ v = v' := by
  rw [List.append_eq_append_iff] at same
  rcases same with ⟨z, rfl, past⟩ | ⟨z, rfl, past⟩
  · cases z with
    | nil =>
      obtain ⟨rfl, rfl⟩ := List.cons.inj past
      exact ⟨(List.append_nil u).symm, rfl, rfl⟩
    | cons x z =>
      obtain ⟨rfl, -⟩ := List.cons.inj past
      have inside := all' c (by simp)
      simp [hc] at inside
  · cases z with
    | nil =>
      obtain ⟨rfl, rfl⟩ := List.cons.inj past
      exact ⟨List.append_nil u', rfl, rfl⟩
    | cons x z =>
      obtain ⟨rfl, -⟩ := List.cons.inj past
      have inside := all c' (by simp)
      simp [hc'] at inside

theorem last_split_unique {P : Char → Bool} {u v u' v' : Str} {c c' : Char} (hc : P c = false)
    (hc' : P c' = false) (all : ∀ x ∈ v, P x = true) (all' : ∀ x ∈ v', P x = true)
    (same : u ++ c :: v = u' ++ c' :: v') : u = u' ∧ c = c' ∧ v = v' := by
  have back : v.reverse ++ c :: u.reverse = v'.reverse ++ c' :: u'.reverse := by
    simpa using congrArg List.reverse same
  obtain ⟨ends, here, fronts⟩ := first_split_unique hc hc' (by simpa using all) (by simpa using all')
    back
  exact ⟨List.reverse_injective fronts, here, List.reverse_injective ends⟩

theorem append_cons_of_not_mem {u v x z : Str} {c : Char} (free : c ∉ u)
    (split : x ++ c :: z = u ++ v) : ∃ x', x = u ++ x' ∧ x' ++ c :: z = v := by
  rw [List.append_eq_append_iff] at split
  rcases split with ⟨y, rfl, past⟩ | ⟨y, rfl, past⟩
  · cases y with
    | nil => exact ⟨[], by simp, past⟩
    | cons d y =>
      obtain ⟨rfl, -⟩ := List.cons.inj past
      simp at free
  · exact ⟨y, rfl, past.symm⟩

variable [UnicodePlatform]

theorem ne_colon_of_isDecimal {c : Char} (decimal : Platform.isDecimal c = true) : c ≠ ':' := by
  rintro rfl
  rw [Platform.isDecimal_ascii ':' (by decide)] at decimal
  exact absurd decimal (by decide)

/-- In the zone of a timestamp the colon stands behind a sign and two digits. -/
theorem zone_colon {before x z after : Str} (reads : Reads CharClass.test isWord
      (.optional (.alt (Patterns.lits "Z") (.chain [.one (.anyOf ['+', '-'] []),
        .exactly 2 .decimal, .optional (Patterns.lits ":"), .exactly 2 .decimal])))
      before (x ++ ':' :: z) after) :
    ∃ c d e, x = [c, d, e] ∧ Platform.isDecimal c = false ∧ Platform.isDecimal d = true ∧
      Platform.isDecimal e = true ∧ c ≠ ':' := by
  generalize whole : x ++ ':' :: z = u at reads
  rcases reads with (zulu | offset) | rfl
  · rw [reads_lits.mp zulu] at whole
    cases x <;> simp at whole
  · obtain ⟨_, _, rfl, isSign, hours, _, rfl, isHours, colon, _, rfl, isColon, minutes, _, rfl,
      isMinutes, rfl⟩ := offset
    obtain ⟨sign, rfl, mark⟩ := reads_one.mp isSign
    obtain ⟨d, e, rfl⟩ := List.length_eq_two.mp (length_exactly isHours)
    obtain ⟨f, g, rfl⟩ := List.length_eq_two.mp (length_exactly isMinutes)
    have hours : Platform.isDecimal d = true ∧ Platform.isDecimal e = true := by
      simpa [CharClass.test] using isHours.2.2
    have minutes : Platform.isDecimal f = true ∧ Platform.isDecimal g = true := by
      simpa [CharClass.test] using isMinutes.2.2
    have signed : sign ≠ ':' ∧ Platform.isDecimal sign = false := by
      obtain rfl | rfl : sign = '+' ∨ sign = '-' := by simpa [CharClass.test] using mark
      all_goals exact ⟨by decide, Platform.isDecimal_ascii _ (by decide)⟩
    have tail : ':' ∉ [f, g] := by
      simp [(ne_colon_of_isDecimal minutes.1).symm, (ne_colon_of_isDecimal minutes.2).symm]
    have behind : ':' ∉ [sign, d, e] := by
      simp [signed.1.symm, (ne_colon_of_isDecimal hours.1).symm,
        (ne_colon_of_isDecimal hours.2).symm]
    obtain ⟨x', rfl, rest⟩ := append_cons_of_not_mem (u := [sign, d, e]) behind whole
    have first : x' = [] := by
      rcases isColon with read | rfl
      · rw [reads_lits.mp read] at rest
        cases x' with
        | nil => rfl
        | cons y x' =>
          have inside : ':' ∈ [f, g] := by
            have later : x' ++ ':' :: z = [f, g] := by simpa using (List.cons.inj rest).2
            rw [← later]
            simp
          exact absurd inside tail
      · refine absurd ?_ tail
        rw [List.nil_append, List.append_nil] at rest
        rw [← rest]
        simp
    subst first
    exact ⟨sign, d, e, by simp, signed.2, hours.1, hours.2, signed.1⟩
  · simp at whole

/-- Before a colon of a timestamp stand two digits, and before them no digit, or another
colon behind a digit. -/
theorem timestamp_colon {before x z after : Str}
    (reads : Reads CharClass.test isWord Patterns.isoTimestamp before (x ++ ':' :: z) after) :
    ∃ y c d e, x = y ++ [c, d, e] ∧ Platform.isDecimal c = false ∧ Platform.isDecimal d = true ∧
      Platform.isDecimal e = true ∧ (c = ':' → ¬ NoDigitEnd y) := by
  generalize whole : x ++ ':' :: z = u at reads
  obtain ⟨_, _, rfl, ⟨rfl, -⟩, day, _, rfl, isDay, _, _, rfl, isMark, hour, _, rfl, isHour, _, _,
    rfl, isColon, minute, _, rfl, isMinute, _, _, rfl, isColon', second, _, rfl, isSecond, frac, _,
    rfl, isFrac, zone, _, rfl, isZone, _, _, rfl, ⟨rfl, -⟩, rfl⟩ := reads
  obtain ⟨m, rfl, mark⟩ := reads_one.mp isMark
  obtain ⟨h, i, rfl⟩ := List.length_eq_two.mp (length_exactly isHour)
  obtain ⟨j, k, rfl⟩ := List.length_eq_two.mp (length_exactly isMinute)
  obtain ⟨s, t, rfl⟩ := List.length_eq_two.mp (length_exactly isSecond)
  rw [reads_lits.mp isColon, reads_lits.mp isColon'] at whole
  have hours : Platform.isDecimal h = true ∧ Platform.isDecimal i = true := by
    simpa [CharClass.test] using isHour.2.2
  have minutes : Platform.isDecimal j = true ∧ Platform.isDecimal k = true := by
    simpa [CharClass.test] using isMinute.2.2
  have seconds : Platform.isDecimal s = true ∧ Platform.isDecimal t = true := by
    simpa [CharClass.test] using isSecond.2.2
  have marked : m ≠ ':' ∧ Platform.isDecimal m = false := by
    obtain rfl | rfl : m = ' ' ∨ m = 'T' := by simpa [CharClass.test] using mark
    all_goals exact ⟨by decide, Platform.isDecimal_ascii _ (by decide)⟩
  have clear {c d : Char} (hc : Platform.isDecimal c = true) (hd : Platform.isDecimal d = true) :
      ':' ∉ [c, d] := by
    simp [(ne_colon_of_isDecimal hc).symm, (ne_colon_of_isDecimal hd).symm]
  have dayClear := not_mem_of_avoids (c := ':') (by decide) (by decide) isDay
  have fracClear := not_mem_of_avoids (c := ':') (by decide) (by decide) isFrac
  have front : ':' ∉ day ++ [m, h, i] := by
    simp [dayClear, marked.1.symm, (ne_colon_of_isDecimal hours.1).symm,
      (ne_colon_of_isDecimal hours.2).symm]
  have shape : x ++ ':' :: z = (day ++ [m, h, i]) ++ (':' :: ([j, k] ++ ':' ::
      (([s, t] ++ frac) ++ (zone ++ [])))) := by simpa using whole
  obtain ⟨x₁, rfl, rest⟩ := append_cons_of_not_mem front shape
  cases x₁ with
  | nil =>
    exact ⟨day, m, h, i, by simp, marked.2, hours.1, hours.2, fun same => (marked.1 same).elim⟩
  | cons c x₁ =>
    obtain ⟨x₂, rfl, rest₂⟩ := append_cons_of_not_mem (clear minutes.1 minutes.2)
      (List.cons.inj rest).2
    cases x₂ with
    | nil =>
      obtain rfl := (List.cons.inj rest).1
      refine ⟨day ++ [m, h, i], ':', j, k, by simp, ?_, minutes.1, minutes.2, fun _ plain => ?_⟩
      · exact Platform.isDecimal_ascii ':' (by decide)
      · have last := plain i (by simp)
        rw [hours.2] at last
        cases last
    | cons c x₂ =>
      have secondsClear : ':' ∉ [s, t] ++ frac := by
        simp [fracClear, (ne_colon_of_isDecimal seconds.1).symm,
          (ne_colon_of_isDecimal seconds.2).symm]
      obtain ⟨x₃, rfl, rest₃⟩ := append_cons_of_not_mem secondsClear (List.cons.inj rest₂).2
      obtain rfl := (List.cons.inj rest₂).1
      obtain rfl := (List.cons.inj rest).1
      rw [List.append_nil] at rest₃
      subst rest₃
      obtain ⟨c, d, e, rfl, plain, dec, dec', other⟩ := zone_colon isZone
      exact ⟨day ++ [m, h, i] ++ ':' :: ([j, k] ++ ':' :: ([s, t] ++ frac)), c, d, e, by simp,
        plain, dec, dec', fun same => (other same).elim⟩

/-- No timestamp reads the colon before a number of a location. -/
theorem Located.not_timestamp {front x z before after : Str} (located : Located (front ++ x))
    (reads : Reads CharClass.test isWord Patterns.isoTimestamp before (x ++ ':' :: z) after) :
    False := by
  obtain ⟨y, c, d, e, rfl, plain, dec, dec', behind⟩ := timestamp_colon reads
  rcases located with noDigit | ⟨path, line, split, noDigit, numeral⟩
  · have last := noDigit e (by simp)
    rw [dec'] at last
    cases last
  · have shape : (front ++ y) ++ c :: [d, e] = path ++ ':' :: line := by simpa using split
    obtain ⟨rfl, rfl, -⟩ := last_split_unique (P := Platform.isDecimal) plain
      (Platform.isDecimal_ascii ':' (by decide)) (by simp [dec, dec'])
      (fun x hx => isDecimal_of_isDigit (numeral.digits x hx)) shape
    refine behind rfl fun x hx => noDigit x ?_
    rw [List.getLast?_append, hx]
    rfl

/-- Behind the digits that a timestamp begins with come a dash and a digit. -/
theorem timestamp_dash {before x w after : Str} (plain : ∀ c ∈ w.head?, Platform.isDecimal c = false)
    (digits : ∀ d ∈ x, Platform.isDecimal d = true)
    (reads : Reads CharClass.test isWord Patterns.isoTimestamp before (x ++ w) after) :
    ∃ d z, w = '-' :: d :: z ∧ Platform.isDecimal d = true := by
  generalize whole : x ++ w = u at reads
  obtain ⟨_, _, rfl, ⟨rfl, -⟩, _, time, rfl, ⟨year, _, rfl, isYear, _, _, rfl, isDash, month, rest,
    rfl, isMonth, -⟩, -⟩ := reads
  rw [reads_lits.mp isDash] at whole
  obtain ⟨d, e, rfl⟩ := List.length_eq_two.mp (length_exactly isMonth)
  have months : Platform.isDecimal d = true ∧ Platform.isDecimal e = true := by
    simpa [CharClass.test] using isMonth.2.2
  have years : ∀ d ∈ year, Platform.isDecimal d = true := isYear.2.2
  have mark : Platform.isDecimal '-' = false := Platform.isDecimal_ascii '-' (by decide)
  cases w with
  | nil =>
    have dash : '-' ∈ x := by
      rw [List.append_nil] at whole
      simp [whole]
    rw [digits '-' dash] at mark
    cases mark
  | cons c w =>
    have shape : x ++ c :: w = year ++ '-' :: d :: e :: (rest ++ time) := by simpa using whole
    obtain ⟨-, rfl, rfl⟩ := first_split_unique (plain c rfl) mark digits years shape
    exact ⟨d, e :: (rest ++ time), rfl, months.1⟩

theorem isDecimal_pathSigns {c : Char} (sign : c ∈ pathSigns) : Platform.isDecimal c = false := by
  refine Bool.eq_false_iff.mpr fun decimal => ?_
  have word := isWord_pathSigns sign
  rw [isWord, UnicodePlatform.isAlnum_of_isDecimal c decimal] at word
  cases word

/-- No timestamp begins in the number of a location and goes on behind it. -/
theorem not_timestamp_behind {n signs front rest z before after : Str} {c : Char}
    (numeral : Numeral n) (all : ∀ c ∈ signs, c ∈ pathSigns) (ends : endsLocation c = true)
    (split : n ++ signs = front ++ rest) :
    ¬ Reads CharClass.test isWord Patterns.isoTimestamp before (rest ++ c :: z) after := by
  intro reads
  have decimal (d : Char) (hd : d ∈ n) := isDecimal_of_isDigit (numeral.digits d hd)
  have dash := not_endsLocation_of_pathChar (c := '-') (by decide)
  have apart {x : Str} (digits : ∀ d ∈ x, Platform.isDecimal d = true) {signs : Str}
      (all : ∀ c ∈ signs, c ∈ pathSigns) (same : rest = x ++ signs) : False := by
    rw [same, List.append_assoc] at reads
    obtain ⟨d, w, shape, dec⟩ := timestamp_dash (w := signs ++ c :: z) (fun e he => by
      cases signs with
      | nil =>
        obtain rfl := Option.some.inj he
        exact isDecimal_of_endsLocation ends
      | cons s signs =>
        obtain rfl := Option.some.inj he
        exact isDecimal_pathSigns (all s List.mem_cons_self)) digits reads
    match signs with
    | [] =>
      obtain ⟨rfl, -⟩ := List.cons.inj shape
      rw [dash] at ends
      cases ends
    | [s] =>
      obtain ⟨rfl, -⟩ := List.cons.inj (List.cons.inj shape).2
      rw [isDecimal_of_endsLocation ends] at dec
      cases dec
    | s :: s' :: signs =>
      obtain ⟨rfl, -⟩ := List.cons.inj (List.cons.inj shape).2
      rw [isDecimal_pathSigns (all s' (by simp))] at dec
      cases dec
  rw [List.append_eq_append_iff] at split
  rcases split with ⟨y, -, signs_eq⟩ | ⟨y, rfl, rest_eq⟩
  · exact apart (x := []) (by simp) (fun c hc => all c (by simp [signs_eq, hc])) rfl
  · exact apart (fun d hd => decimal d (List.mem_append_right front hd)) all rest_eq

theorem keeps_timestamp {before : Str} (located : Located before) :
    Keeps (reSub Patterns.isoTimestamp (fixedText "<timestamp>")) before
      (reSub Patterns.isoTimestamp (fixedText "<timestamp>") before) := by
  have groups : OfGroups (fixedText "<timestamp>") := fun _ _ _ => rfl
  have none : Patterns.isoTimestamp.lookbehind = [] := rfl
  refine keeps_of_splits (fun v => ?_) (fun n signs numeral all => ?_)
    fun n signs numeral all c ends v => ?_
  · refine sub_split groups (isWord_mark (by simp)) (by simp [none]) ?_
    rintro front rest z after rfl - reads
    exact located.not_timestamp reads
  · exact leaves_digits (c := '-') (by decide) (by decide) (by decide) (by decide) numeral all
  · refine sub_split groups (isWord_of_endsLocation ends) (by simp [none]) ?_
    intro front rest z after split _
    exact not_timestamp_behind numeral all ends split

end Timestamps

section Values
variable [UnicodePlatform]

/-- A rule that reads no colon leaves a location a location. -/
theorem Located.reSub {before : Str} (located : Located before) {p : Pattern CharClass} {w : String}
    (some : 0 < p.least) (placed : '>' ∈ w.toList.getLast?)
    (path : ∀ k ∈ p.classes ++ p.lookbehind, k.pathClass = true)
    (lasts : ∀ k ∈ p.lasts, k.wordClass = true) {c : Char}
    (required : p.required.any (CharClass.isLit c) = true) (missing : c.isDigit = false) :
    Located (LogLens.reSub p (fixedText w) before) := by
  rcases located with plain | ⟨front, line, rfl, plain, numeral⟩
  · exact .inl (plain.reSub some placed)
  · have same : LogLens.reSub p (fixedText w) (line ++ []) = line ++ [] :=
      leaves_digits some lasts required missing numeral (List.forall_mem_nil _)
    rw [List.append_nil] at same
    rw [reSub_endsLocation path endsLocation_colon, same]
    exact .inr ⟨_, line, rfl, plain.reSub some placed, numeral⟩

theorem keeps_values {before : Str} (located : Located before) : ∃ before',
    Keeps ((maskingRules.take 6).foldl fun normalized s => reSub s.1 s.2 normalized)
      before before' := by
  have uuid := keeps_missing (p := Patterns.uuid) (w := "<uuid>") (c := '-') (by decide)
    (by decide) (by decide) (by decide) (by decide) before
  have located' := located.reSub (p := Patterns.uuid) (w := "<uuid>") (c := '-') (by decide) rfl
    (by decide) (by decide) (by decide) (by decide)
  have date := keeps_missing (p := Patterns.isoDate) (w := "<date>") (c := '-') (by decide)
    (by decide) (by decide) (by decide) (by decide)
  have email := keeps_missing (p := Patterns.email) (w := "<email>") (c := '@') (by decide)
    (by decide) (by decide) (by decide) (by decide)
  have ip := keeps_missing (p := Patterns.ip) (w := "<ip>") (c := '.') (by decide)
    (by decide) (by decide) (by decide) (by decide)
  have address := keeps_missing (p := Patterns.memoryAddress) (w := "<memory_address>") (c := 'x')
    (by decide) (by decide) (by decide) (by decide) (by decide)
  exact ⟨_, ((((uuid.comp (keeps_timestamp located')).comp (date _)).comp (email _)).comp
    (ip _)).comp (address _)⟩

end Values

end LogLens
