import Mathlib.Data.List.Forall2
import LogLens.Whitespace
import LogLens.Library.RegexLocality

/-! The labels of `_REQUEST_ID_RE` and `_LABEL_NUMBER_RE`, and what these two patterns
read: a label, separators and a value, which they take to its end. -/

namespace LogLens
open BacktrackingRegex

section Folding

/-- The lower-case ASCII letter that `re.IGNORECASE` equates with a character. -/
def foldCase (x : Char) : Char :=
  if x = 'ı' ∨ x = 'İ' then 'i' else if x = 'ſ' then 's' else if x = '\u212a' then 'k'
  else x.toLower

/-- The letters and signs that the labels are written in. -/
def labelChars : List Char := "abcdefghijklmnopqrstuvwxyz_".toList

theorem toLower_cases (x : Char) :
    x.toLower = x ∨ (x.toLower.toUpper = x ∧ x.toLower ≠ '_') := by
  have lowered : ∀ n < 128, (Char.ofNat n).isUpper = true →
      (Char.ofNat n).toLower.toUpper = Char.ofNat n ∧ (Char.ofNat n).toLower ≠ '_' := by decide
  by_cases upper : x.val ≥ 'A'.val ∧ x.val ≤ 'Z'.val
  · have bound : x.toNat ≤ 90 := upper.2
    have table := lowered x.toNat (by omega)
    rw [Char.ofNat_toNat] at table
    exact .inr (table (decide_eq_true upper))
  · exact .inl (dif_neg upper)

theorem foldCase_cases {c x : Char} (fold : foldCase x = c) :
    x = c ∨ (x = c.toUpper ∧ c ≠ '_') ∨ x ∈ caseFolds c := by
  unfold foldCase at fold
  split at fold
  · rename_i dotted
    subst fold
    exact .inr (.inr (by simpa [caseFolds] using dotted))
  · split at fold
    · rename_i long
      subst fold long
      exact .inr (.inr (by decide))
    · split at fold
      · rename_i kelvin
        subst fold kelvin
        exact .inr (.inr (by decide))
      · subst fold
        rcases toLower_cases x with same | ⟨upper, other⟩
        · exact .inl same.symm
        · exact .inr (.inl ⟨upper.symm, other⟩)

variable [Platform]

/-- A character of a pattern that ignores case reads what folds to it. -/
theorem test_folded_iff {c : Char} (hc : c ∈ labelChars) (x : Char) :
    (if c.isLower then CharClass.letter c else CharClass.lit c).test x = true ↔
      foldCase x = c := by
  have own : ∀ c ∈ labelChars, foldCase c = c := by decide
  have upper : ∀ c ∈ labelChars, c.isLower = true → foldCase c.toUpper = c := by decide
  have folds : ∀ c ∈ labelChars, ∀ x ∈ caseFolds c, foldCase x = c := by decide
  have sign : ∀ c ∈ labelChars, c.isLower = false → c = '_' := by decide
  cases lower : c.isLower with
  | true =>
    simp only [if_true, CharClass.test, Bool.or_eq_true, decide_eq_true_eq, or_assoc]
    constructor
    · rintro (rfl | rfl | folded)
      · exact own x hc
      · exact upper c hc lower
      · exact folds c hc x folded
    · intro fold
      rcases foldCase_cases fold with same | ⟨upper, -⟩ | folded
      · exact .inl same
      · exact .inr (.inl upper)
      · exact .inr (.inr folded)
  | false =>
    obtain rfl := sign c hc lower
    simp only [Bool.false_eq_true, if_false, CharClass.test, decide_eq_true_eq]
    constructor
    · rintro rfl
      decide
    · intro fold
      rcases foldCase_cases fold with same | ⟨-, other⟩ | folded
      · exact same
      · exact absurd rfl other
      · exact absurd folded List.not_mem_nil

theorem reads_characters {k : Char → CharClass} {s : Str} {before u after : Str} :
    Reads CharClass.test isWord (.chain (s.map fun c => .one (k c))) before u after ↔
      List.Forall₂ (fun c x => (k c).test x = true) s u := by
  induction s generalizing before u with
  | nil =>
    rw [List.forall₂_nil_left_iff]
    exact Iff.rfl
  | cons c s ih =>
    constructor
    · rintro ⟨_, w, rfl, first, rest⟩
      obtain ⟨x, rfl, passes⟩ := reads_one.mp first
      exact .cons passes (ih.mp rest)
    · rintro (_ | ⟨passes, rest⟩)
      rename_i x u
      exact ⟨[x], u, rfl, reads_one.mpr ⟨x, rfl, passes⟩, ih.mpr rest⟩

theorem reads_lits {s : String} {before u after : Str} :
    Reads CharClass.test isWord (Patterns.lits s) before u after ↔ u = s.toList := by
  unfold Patterns.lits
  rw [reads_characters]
  simp only [CharClass.test, decide_eq_true_eq]
  generalize s.toList = t
  induction t generalizing u with
  | nil => rw [List.forall₂_nil_left_iff]
  | cons c t ih =>
    constructor
    · rintro (_ | ⟨rfl, rest⟩)
      rw [ih.mp rest]
    · rintro rfl
      exact .cons rfl (ih.mpr rfl)

theorem reads_word {s : String} (written : ∀ c ∈ s.toList, c ∈ labelChars)
    {before u after : Str} : Reads CharClass.test isWord (Patterns.word s) before u after ↔
      u.map foldCase = s.toList := by
  unfold Patterns.word
  rw [reads_characters]
  generalize s.toList = t at written
  induction t generalizing u with
  | nil => rw [List.forall₂_nil_left_iff, List.map_eq_nil_iff]
  | cons c t ih =>
    rw [List.forall_mem_cons] at written
    constructor
    · rintro (_ | ⟨passes, rest⟩)
      rw [List.map_cons, (test_folded_iff written.1 _).mp passes, (ih written.2).mp rest]
    · intro folded
      cases u with
      | nil => cases folded
      | cons x u =>
        rw [List.map_cons, List.cons.injEq] at folded
        exact .cons ((test_folded_iff written.1 x).mpr folded.1) ((ih written.2).mpr folded.2)

end Folding

section Labels

/-- `[_\- ]?id` -/
def idSuffixes : List Str := ["_id".toList, "-id".toList, " id".toList, "id".toList]

/-- The labels of a request id, in lower case. -/
def requestLabels : List Str :=
  ["request", "req", "trace"].flatMap fun w => idSuffixes.map (w.toList ++ ·)

/-- The labels of a number, in lower case. -/
def numberLabels : List Str :=
  ["id", "user_id", "record_id", "db_id", "request_id", "trace_id", "line"].map String.toList

/-- The separators of a label and its value. -/
def IsSeparator (c : Char) : Prop := c = ':' ∨ c = '=' ∨ c = ' '

instance (c : Char) : Decidable (IsSeparator c) :=
  inferInstanceAs (Decidable (c = ':' ∨ c = '=' ∨ c = ' '))

variable [Platform]

theorem test_separator {c : Char} :
    (CharClass.anyOf [':', '=', ' '] []).test c = true ↔ IsSeparator c := by
  simp [CharClass.test, IsSeparator]

theorem reads_idSuffix {before u after : Str} :
    Reads CharClass.test isWord Patterns.idSuffix before u after ↔ u.map foldCase ∈ idSuffixes := by
  have sign {x : Char} (hx : x = '_' ∨ x = '-' ∨ x = ' ') : foldCase x = x := by
    rcases hx with rfl | rfl | rfl <;> decide
  constructor
  · rintro ⟨gap, _, rfl, hgap, name, _, rfl, isName, rfl⟩
    have named := (reads_word (by decide)).mp isName
    rcases hgap with one | rfl
    · obtain ⟨x, rfl, mark⟩ := reads_one.mp one
      simp only [CharClass.test, List.any_nil, Bool.or_false, decide_eq_true_eq, List.mem_cons,
        List.not_mem_nil, or_false] at mark
      rw [List.append_nil, List.singleton_append, List.map_cons, named, sign mark]
      rcases mark with rfl | rfl | rfl <;> decide
    · rw [List.nil_append, List.append_nil, named]
      decide
  · intro folded
    have name {v b a : Str} (named : v.map foldCase = "id".toList) :
        Reads CharClass.test isWord (.chain [Patterns.word "id"]) b v a :=
      ⟨v, [], (List.append_nil v).symm, (reads_word (by decide)).mpr named, rfl⟩
    have marked {c : Char} (hc : c = '_' ∨ c = '-' ∨ c = ' ')
        (folded : u.map foldCase = c :: "id".toList) :
        Reads CharClass.test isWord Patterns.idSuffix before u after := by
      obtain ⟨x, v, rfl, fold, named⟩ := List.map_eq_cons_iff.mp folded
      have same : x = c := by
        rcases foldCase_cases fold with same | ⟨upper, -⟩ | folds
        · exact same
        · rcases hc with rfl | rfl | rfl <;> exact upper
        · rcases hc with rfl | rfl | rfl <;> exact absurd folds List.not_mem_nil
      subst same
      refine ⟨[x], v, rfl, .inl (reads_one.mpr ⟨x, rfl, ?_⟩), name named⟩
      simpa [CharClass.test] using hc
    simp only [idSuffixes, List.mem_cons, List.not_mem_nil, or_false] at folded
    rcases folded with under | dash | blank | bare
    · exact marked (.inl rfl) under
    · exact marked (.inr (.inl rfl)) dash
    · exact marked (.inr (.inr rfl)) blank
    · exact ⟨[], u, rfl, .inr rfl, name bare⟩

theorem reads_named {w : String} (written : ∀ c ∈ w.toList, c ∈ labelChars) {before u after : Str} :
    Reads CharClass.test isWord (.chain [Patterns.word w, Patterns.idSuffix]) before u after ↔
      u.map foldCase ∈ idSuffixes.map (w.toList ++ ·) := by
  constructor
  · rintro ⟨v, _, rfl, first, m, _, rfl, suffixed, rfl⟩
    rw [List.append_nil, List.map_append, (reads_word written).mp first]
    exact List.mem_map_of_mem (reads_idSuffix.mp suffixed)
  · intro folded
    obtain ⟨m, suffixed, split⟩ := List.mem_map.mp folded
    obtain ⟨v, m', rfl, named, rfl⟩ := List.map_eq_append_iff.mp split.symm
    exact ⟨v, m', rfl, (reads_word written).mpr named, m', [], (List.append_nil m').symm,
      reads_idSuffix.mpr suffixed, rfl⟩

def requestLabel : Pattern CharClass :=
  .choice (.chain [Patterns.word "request", Patterns.idSuffix])
    [.chain [Patterns.word "req", Patterns.idSuffix],
      .chain [Patterns.word "trace", Patterns.idSuffix]]

theorem reads_requestLabel {before u after : Str} :
    Reads CharClass.test isWord requestLabel before u after ↔ u.map foldCase ∈ requestLabels := by
  have request := @reads_named _ "request" (by decide) before u after
  have req := @reads_named _ "req" (by decide) before u after
  have trace := @reads_named _ "trace" (by decide) before u after
  unfold requestLabel requestLabels
  simp only [List.mem_flatMap, List.mem_cons, List.not_mem_nil, or_false, exists_eq_or_imp,
    exists_eq_left, ← request, ← req, ← trace]
  exact or_assoc

def numberLabel : Pattern CharClass :=
  .choice (Patterns.word "id") [Patterns.word "user_id", Patterns.word "record_id",
    Patterns.word "db_id", Patterns.word "request_id", Patterns.word "trace_id",
    Patterns.word "line"]

theorem reads_numberLabel {before u after : Str} :
    Reads CharClass.test isWord numberLabel before u after ↔ u.map foldCase ∈ numberLabels := by
  have each (w : String) (written : ∀ c ∈ w.toList, c ∈ labelChars) :=
    @reads_word _ w written before u after
  simp only [numberLabel, Pattern.choice, List.foldl_cons, List.foldl_nil, Reads]
  rw [each "id" (by decide), each "user_id" (by decide), each "record_id" (by decide),
    each "db_id" (by decide), each "request_id" (by decide), each "trace_id" (by decide),
    each "line" (by decide)]
  simp only [numberLabels, List.map_cons, List.map_nil, List.mem_cons, List.not_mem_nil, or_false,
    or_assoc]

end Labels

section Names

theorem requestId_eq : Patterns.requestId = .seq .boundary (.seq (.group 1 requestLabel)
    (.chain [.boundary, .atLeast 0 (.anyOf [':', '=', ' '] []),
      .group 2 (.atLeast 1 Patterns.idChar)])) := rfl

theorem labelNumber_eq : Patterns.labelNumber = .seq .boundary (.seq (.group 1 numberLabel)
    (.chain [.atLeast 1 (.anyOf [':', '=', ' '] []), .group 2 (.atLeast 1 .decimal),
      .boundary])) := rfl

/-- No label begins another one of its kind. -/
theorem label_unique {labels : List Str} (free : ∀ p ∈ labels, ∀ q ∈ labels, p <+: q → p = q)
    {l m x y : Str} (hl : l.map foldCase ∈ labels) (hm : m.map foldCase ∈ labels)
    (same : l ++ x = m ++ y) : l = m ∧ x = y := by
  have shorter {l z : Str} (hl : l.map foldCase ∈ labels)
      (hz : (l ++ z).map foldCase ∈ labels) : z = [] := by
    have equal := free _ hl _ hz (by rw [List.map_append]; exact List.prefix_append _ _)
    simpa using congrArg List.length equal
  rw [List.append_eq_append_iff] at same
  rcases same with ⟨z, rfl, rfl⟩ | ⟨z, rfl, rfl⟩
  · obtain rfl := shorter hl hm
    exact ⟨(List.append_nil l).symm, rfl⟩
  · obtain rfl := shorter hm hl
    exact ⟨List.append_nil m, rfl⟩

theorem requestLabels_free : ∀ p ∈ requestLabels, ∀ q ∈ requestLabels, p <+: q → p = q := by
  decide

theorem numberLabels_free : ∀ p ∈ numberLabels, ∀ q ∈ numberLabels, p <+: q → p = q := by
  decide

end Names

section Readings
variable [UnicodePlatform]

theorem isWord_of_foldCase {x : Char} (written : foldCase x ∈ labelChars) : isWord x = true := by
  have own : ∀ c ∈ labelChars, IsAscii c ∧ (c.isAlphanum || c = '_') = true := by decide
  have upper : ∀ c ∈ labelChars, IsAscii c.toUpper ∧ (c.toUpper.isAlphanum || c.toUpper = '_') =
      true := by decide
  have folds : ∀ c ∈ labelChars, ∀ x ∈ caseFolds c, x ∈ foldedLetters := by decide
  rcases foldCase_cases (x := x) rfl with same | ⟨same, -⟩ | folded
  · obtain ⟨ascii, alnum⟩ := own _ written
    rw [same, isWord, Platform.isAlnum_ascii _ ascii]
    exact alnum
  · obtain ⟨ascii, alnum⟩ := upper _ written
    rw [same, isWord, Platform.isAlnum_ascii _ ascii]
    exact alnum
  · rw [isWord, UnicodePlatform.isAlnum_folded _ (folds _ written _ folded), Bool.true_or]

/-- A label begins and ends in a word. -/
theorem label_words {labels : List Str}
    (written : ∀ l ∈ labels, l.head?.any (· ∈ labelChars) ∧ l.getLast?.any (· ∈ labelChars))
    {label : Str} (here : label.map foldCase ∈ labels) (before after : Str) :
    wordAt isWord (label ++ after) = true ∧ wordAt isWord (label.reverse ++ before) = true := by
  obtain ⟨firstWritten, lastWritten⟩ := written _ here
  obtain ⟨c, hc, first⟩ := (Option.any_eq_true _ _).mp firstWritten
  obtain ⟨e, he, last⟩ := (Option.any_eq_true _ _).mp lastWritten
  rw [decide_eq_true_eq] at first last
  constructor
  · cases label with
    | nil => simp at hc
    | cons x label =>
      obtain rfl : foldCase x = c := by simpa using hc
      exact isWord_of_foldCase first
  · obtain rfl | ⟨front, x, rfl⟩ := List.eq_nil_or_concat label
    · simp at he
    · obtain rfl : foldCase x = e := by simpa using he
      simpa [wordAt] using isWord_of_foldCase last

theorem requestLabel_words {label : Str} (here : label.map foldCase ∈ requestLabels)
    (before after : Str) : wordAt isWord (label ++ after) = true ∧
      wordAt isWord (label.reverse ++ before) = true :=
  label_words (by decide) here before after

theorem numberLabel_words {label : Str} (here : label.map foldCase ∈ numberLabels)
    (before after : Str) : wordAt isWord (label ++ after) = true ∧
      wordAt isWord (label.reverse ++ before) = true :=
  label_words (by decide) here before after

/-- A label between `before` and `after` with its separators and request id. -/
structure RequestIdAt (before label seps id after : Str) : Prop where
  label : label.map foldCase ∈ requestLabels
  start : wordAt isWord before = false
  labelEnd : wordAt isWord (seps ++ (id ++ after)) = false
  seps : ∀ c ∈ seps, IsSeparator c
  some : id ≠ []
  id : ∀ c ∈ id, Patterns.idChar.test c = true

/-- A label between `before` and `after` with its separators and number. -/
structure LabelNumberAt (before label seps digits after : Str) : Prop where
  label : label.map foldCase ∈ numberLabels
  start : wordAt isWord before = false
  someSeps : seps ≠ []
  seps : ∀ c ∈ seps, IsSeparator c
  some : digits ≠ []
  digits : ∀ c ∈ digits, Platform.isDecimal c = true
  finish : wordAt isWord after = false

theorem reads_requestId {before u after : Str} :
    Reads CharClass.test isWord Patterns.requestId before u after ↔ ∃ label seps id,
      u = label ++ (seps ++ id) ∧ RequestIdAt before label seps id after := by
  rw [requestId_eq]
  constructor
  · rintro ⟨_, _, rfl, ⟨rfl, start⟩, label, _, rfl, isLabel, _, _, rfl, ⟨rfl, ends⟩, seps, _, rfl,
      ⟨-, -, separators⟩, id, _, rfl, ⟨long, -, ids⟩, rfl⟩
    have named := reads_requestLabel.mp isLabel
    simp only [List.append_nil, List.nil_append, List.reverse_nil, List.append_assoc] at *
    rw [(requestLabel_words named [] _).1] at start
    rw [(requestLabel_words named before []).2] at ends
    refine ⟨label, seps, id, rfl, named, by simpa using start, by simpa using ends.symm,
      fun c hc => test_separator.mp (separators c hc), ?_, ids⟩
    rintro rfl
    simp at long
  · rintro ⟨label, seps, id, rfl, h⟩
    refine ⟨[], label ++ (seps ++ id), rfl, ⟨rfl, ?_⟩, label, seps ++ id, rfl,
      reads_requestLabel.mpr h.label, [], seps ++ id, rfl, ⟨rfl, ?_⟩, seps, id, rfl,
      ⟨by simp, by simp, fun c hc => test_separator.mpr (h.seps c hc)⟩, id, [],
      (List.append_nil id).symm, ⟨?_, by simp, h.id⟩, rfl⟩
    · rw [List.append_assoc, (requestLabel_words h.label [] _).1, h.start]
      decide
    · simp only [List.nil_append, List.reverse_nil, List.append_assoc]
      rw [(requestLabel_words h.label before []).2, h.labelEnd]
      decide
    · exact List.length_pos_iff.mpr h.some

theorem isDecimal_words {digits : Str} (some : digits ≠ [])
    (decimal : ∀ c ∈ digits, Platform.isDecimal c = true) (before after : Str) :
    wordAt isWord (digits ++ after) = true ∧ wordAt isWord (digits.reverse ++ before) = true := by
  have inWord {c : Char} (hc : c ∈ digits) : isWord c = true := by
    rw [isWord, UnicodePlatform.isAlnum_of_isDecimal c (decimal c hc), Bool.true_or]
  constructor
  · cases digits with
    | nil => exact absurd rfl some
    | cons x rest => exact inWord List.mem_cons_self
  · obtain rfl | ⟨front, x, rfl⟩ := List.eq_nil_or_concat digits
    · exact absurd rfl some
    · simpa [wordAt] using inWord (c := x) (by simp)

theorem reads_labelNumber {before u after : Str} :
    Reads CharClass.test isWord Patterns.labelNumber before u after ↔ ∃ label seps digits,
      u = label ++ (seps ++ digits) ∧ LabelNumberAt before label seps digits after := by
  rw [labelNumber_eq]
  constructor
  · rintro ⟨_, _, rfl, ⟨rfl, start⟩, label, _, rfl, isLabel, seps, _, rfl,
      ⟨someSeps, -, separators⟩, digits, _, rfl, ⟨long, -, decimal⟩, _, _, rfl, ⟨rfl, ends⟩, rfl⟩
    have named := reads_numberLabel.mp isLabel
    have some : digits ≠ [] := by
      rintro rfl
      simp at long
    simp only [List.append_nil, List.nil_append, List.reverse_nil, List.append_assoc] at *
    rw [(numberLabel_words named [] _).1] at start
    rw [(isDecimal_words some decimal _ []).2] at ends
    refine ⟨label, seps, digits, rfl, named, by simpa using start, ?_,
      fun c hc => test_separator.mp (separators c hc), some, decimal, by simpa using ends.symm⟩
    rintro rfl
    simp at someSeps
  · rintro ⟨label, seps, digits, rfl, h⟩
    refine ⟨[], label ++ (seps ++ digits), rfl, ⟨rfl, ?_⟩, label, seps ++ digits, rfl,
      reads_numberLabel.mpr h.label, seps, digits, rfl, ⟨List.length_pos_iff.mpr h.someSeps,
        by simp, fun c hc => test_separator.mpr (h.seps c hc)⟩,
      digits, [], (List.append_nil digits).symm, ⟨List.length_pos_iff.mpr h.some, by simp,
        h.digits⟩, [], [], rfl, ⟨rfl, ?_⟩, rfl⟩
    · rw [List.append_assoc, (numberLabel_words h.label [] _).1, h.start]
      decide
    · rw [(isDecimal_words h.some h.digits _ []).2, List.nil_append, h.finish]
      decide

end Readings

section Matches

theorem first_label [Platform] {pattern : Pattern CharClass} {labels : List Str}
    (reads : ∀ {before u after}, Reads CharClass.test isWord pattern before u after ↔
      u.map foldCase ∈ labels)
    (free : ∀ p ∈ labels, ∀ q ∈ labels, p <+: q → p = q) {label : Str}
    (here : label.map foldCase ∈ labels) (before after : Str) :
    ∃ e, first CharClass.test isWord pattern { before := before, after := label ++ after } =
      some e ∧ e.before = label.reverse ++ before ∧ e.after = after := by
  cases found : first CharClass.test isWord pattern
      { before := before, after := label ++ after } with
  | none => exact absurd (reads.mpr here) (first_eq_none_iff.mp found label after rfl)
  | some e =>
    obtain ⟨u, split, behind, isLabel⟩ := reads_of_first found
    obtain ⟨rfl, rest⟩ := label_unique free here (reads.mp isLabel) split
    exact ⟨e, rfl, behind, rest.symm⟩

variable [UnicodePlatform]

omit [UnicodePlatform] in
/-- The first group of a rule that keeps a label is the label. -/
theorem groupText_label [Platform] {label rest : Pattern CharClass} {labels : List Str}
    (reads : ∀ {before u after}, Reads CharClass.test isWord label before u after ↔
      u.map foldCase ∈ labels)
    (free : ∀ p ∈ labels, ∀ q ∈ labels, p <+: q → p = q) (other : 1 ∉ rest.groupNumbers)
    {c d : Cursor Char}
    (found : first CharClass.test isWord (.seq .boundary (.seq (.group 1 label) rest)) c = some d)
    {text after : Str} (here : text.map foldCase ∈ labels) (split : c.after = text ++ after) :
    d.groupText 1 = text := by
  obtain ⟨e, way, found⟩ := first_seq found
  obtain ⟨-, stays, -, rfl, -⟩ := reads_of_mem_ways way
  obtain ⟨u, read, -, isLabel, -⟩ := reads_group_seq other (List.mem_of_head? found)
  rw [List.nil_append] at stays
  rw [← stays, split] at read
  exact (label_unique free (reads.mp isLabel) here read.symm).1

theorem requestIdAt_of_first {c d : Cursor Char}
    (found : first CharClass.test isWord Patterns.requestId c = some d) :
    ∃ seps id, c.after = d.groupText 1 ++ (seps ++ (id ++ d.after)) ∧
      RequestIdAt c.before (d.groupText 1) seps id d.after := by
  obtain ⟨u, split, -, reads⟩ := reads_of_first found
  obtain ⟨label, seps, id, rfl, here⟩ := reads_requestId.mp reads
  have whole : c.after = label ++ (seps ++ (id ++ d.after)) := by simpa using split
  have own : d.groupText 1 = label :=
    groupText_label reads_requestLabel requestLabels_free (by decide) found here.label whole
  exact ⟨seps, id, by rw [own, whole], by rwa [own]⟩

theorem labelNumberAt_of_first {c d : Cursor Char}
    (found : first CharClass.test isWord Patterns.labelNumber c = some d) :
    ∃ seps digits, c.after = d.groupText 1 ++ (seps ++ (digits ++ d.after)) ∧
      LabelNumberAt c.before (d.groupText 1) seps digits d.after := by
  obtain ⟨u, split, -, reads⟩ := reads_of_first found
  obtain ⟨label, seps, digits, rfl, here⟩ := reads_labelNumber.mp reads
  have whole : c.after = label ++ (seps ++ (digits ++ d.after)) := by simpa using split
  have own : d.groupText 1 = label :=
    groupText_label reads_numberLabel numberLabels_free (by decide) found here.label whole
  exact ⟨seps, digits, by rw [own, whole], by rwa [own]⟩

/-- Where the separators end at the request id, the match takes all of both. -/
theorem first_requestId {before label seps id after : Str}
    (h : RequestIdAt before label seps id after) (maximal : ∀ x ∈ id.head?, ¬ IsSeparator x)
    (stops : ∀ x ∈ after.head?, Patterns.idChar.test x = false) :
    ∃ d, first CharClass.test isWord Patterns.requestId
        { before := before, after := label ++ (seps ++ (id ++ after)) } = some d ∧
      d.after = after ∧ d.groupText 1 = label := by
  obtain ⟨e, found, behind, ahead⟩ := first_label reads_requestLabel requestLabels_free h.label
    before (seps ++ (id ++ after))
  let c : Cursor Char := { before := before, after := label ++ (seps ++ (id ++ after)) }
  let named : Cursor Char := { e with groups := (1, c.readUpTo e) :: e.groups }
  let separated : Cursor Char :=
    { named with before := seps.reverse ++ named.before, after := id ++ after }
  let read : Cursor Char :=
    { separated with before := id.reverse ++ separated.before, after := after }
  have atLabel : first CharClass.test isWord .boundary c = some c := by
    refine first_boundary ?_
    rw [h.start, (requestLabel_words h.label [] _).1]
    decide
  have label_read : first CharClass.test isWord (.group 1 requestLabel) c = some named := by
    rw [first_group, found, Option.map_some]
  have behindLabel : first CharClass.test isWord .boundary named = some named := by
    refine first_boundary ?_
    change wordAt isWord e.before ≠ wordAt isWord e.after
    rw [behind, ahead, (requestLabel_words h.label before []).2, h.labelEnd]
    decide
  have seps_read : first CharClass.test isWord (.atLeast 0 (.anyOf [':', '=', ' '] [])) named =
      some separated := by
    refine first_run_eq ahead (Nat.zero_le _) (fun x hx => test_separator.mpr (h.seps x hx)) ?_
    intro x hx
    cases id with
    | nil => exact absurd rfl h.some
    | cons y id =>
      obtain rfl : y = x := by simpa using hx
      exact Bool.eq_false_iff.mpr fun mark => maximal y rfl (test_separator.mp mark)
  have id_read : first CharClass.test isWord (.group 2 (.atLeast 1 Patterns.idChar)) separated =
      some { read with groups := (2, separated.readUpTo read) :: read.groups } := by
    rw [first_group, Pattern.atLeast, first_run_eq (c := separated) rfl
      (List.length_pos_iff.mpr h.some) h.id stops, Option.map_some]
  refine ⟨_, first_seq_of_first atLabel (first_seq_of_first label_read (first_seq_of_first
    behindLabel (first_seq_of_first seps_read (first_seq_of_first id_read rfl)))), rfl, ?_⟩
  have text : c.readUpTo e = label := readUpTo_eq (by rw [ahead])
  simp [Cursor.groupText, read, separated, named, text]

/-- A labelled number is matched to its end. -/
theorem first_labelNumber {before label seps digits after : Str}
    (h : LabelNumberAt before label seps digits after) :
    ∃ d, first CharClass.test isWord Patterns.labelNumber
        { before := before, after := label ++ (seps ++ (digits ++ after)) } = some d ∧
      d.after = after ∧ d.groupText 1 = label := by
  obtain ⟨e, found, behind, ahead⟩ := first_label reads_numberLabel numberLabels_free h.label
    before (seps ++ (digits ++ after))
  let c : Cursor Char := { before := before, after := label ++ (seps ++ (digits ++ after)) }
  let named : Cursor Char := { e with groups := (1, c.readUpTo e) :: e.groups }
  let separated : Cursor Char :=
    { named with before := seps.reverse ++ named.before, after := digits ++ after }
  let read : Cursor Char :=
    { separated with before := digits.reverse ++ separated.before, after := after }
  have atLabel : first CharClass.test isWord .boundary c = some c := by
    refine first_boundary ?_
    rw [h.start, (numberLabel_words h.label [] _).1]
    decide
  have label_read : first CharClass.test isWord (.group 1 numberLabel) c = some named := by
    rw [first_group, found, Option.map_some]
  have plain {x : Char} (word : isWord x = false) : Platform.isDecimal x = false := by
    refine Bool.eq_false_iff.mpr fun decimal => ?_
    rw [isWord, UnicodePlatform.isAlnum_of_isDecimal x decimal] at word
    cases word
  have seps_read : first CharClass.test isWord (.atLeast 1 (.anyOf [':', '=', ' '] [])) named =
      some separated := by
    refine first_run_eq ahead (List.length_pos_iff.mpr h.someSeps)
      (fun x hx => test_separator.mpr (h.seps x hx)) ?_
    intro x hx
    cases digits with
    | nil => exact absurd rfl h.some
    | cons y digits =>
      obtain rfl : y = x := by simpa using hx
      refine Bool.eq_false_iff.mpr fun mark => ?_
      have decimal := h.digits y List.mem_cons_self
      rw [plain (isWord_mark (test_separator.mp mark))] at decimal
      cases decimal
  have digits_read : first CharClass.test isWord (.group 2 (.atLeast 1 .decimal)) separated =
      some { read with groups := (2, separated.readUpTo read) :: read.groups } := by
    have taken : first CharClass.test isWord (.run .decimal 1 none) separated = some read := by
      refine first_run_eq rfl (List.length_pos_iff.mpr h.some) h.digits ?_
      intro x hx
      cases after with
      | nil => cases hx
      | cons y after =>
        obtain rfl : y = x := by simpa using hx
        exact plain h.finish
    rw [first_group, Pattern.atLeast, taken, Option.map_some]
  have atEnd : first CharClass.test isWord .boundary
      { read with groups := (2, separated.readUpTo read) :: read.groups } =
      some { read with groups := (2, separated.readUpTo read) :: read.groups } := by
    refine first_boundary ?_
    change wordAt isWord (digits.reverse ++ separated.before) ≠ wordAt isWord after
    rw [(isDecimal_words h.some h.digits _ []).2, h.finish]
    decide
  refine ⟨_, first_seq_of_first atLabel (first_seq_of_first label_read (first_seq_of_first
    seps_read (first_seq_of_first digits_read (first_seq_of_first atEnd rfl)))), rfl, ?_⟩
  have text : c.readUpTo e = label := readUpTo_eq (by rw [ahead])
  simp [Cursor.groupText, read, separated, named, text]

end Matches

end LogLens
