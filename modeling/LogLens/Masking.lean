import LogLens.Fingerprint
import LogLens.Library.RegexScanning

/-! Masking is complete on ASCII messages: no text that a value pattern matches is left
in a normal form. No rule makes one, as a text between word boundaries that a later
rule leaves, or that it places, stood there before. -/

namespace LogLens
open BacktrackingRegex

/-- The patterns of values, whatever the label before them. -/
def valuePatterns : List (Pattern CharClass) :=
  [Patterns.uuid, Patterns.isoTimestamp, Patterns.isoDate, Patterns.email, Patterns.ip,
    Patterns.memoryAddress, Patterns.hexRun, Patterns.longNumber]

/-- The ten substitutions before white space is collapsed. -/
def maskingRules : List (Pattern CharClass × (Cursor Char → Str)) := substitutions.take 10

/-- What the masking rules put in the place of a value, or behind a label. -/
def placeholders : List String :=
  ["<uuid>", "<timestamp>", "<date>", "<email>", "<ip>", "<memory_address>", ":<request_id>",
    "=<id>", "<hex>", "<number>"]

/-- `pattern.search(text)` -/
def reSearch [Platform] (p : Pattern CharClass) (text : Str) : Option (Cursor Char) :=
  search CharClass.test isWord p text

section Classes

def IsBracket (c : Char) : Prop := c = '<' ∨ c = '>'

/-- A range of ASCII letters or of digits. -/
def alnumRange (r : Char × Char) : Bool :=
  ('0' ≤ r.1 && r.2 ≤ '9') || ('A' ≤ r.1 && r.2 ≤ 'Z') || ('a' ≤ r.1 && r.2 ≤ 'z')

/-- The class has word characters only. -/
def CharClass.wordClass : CharClass → Bool
  | .lit c => c.isAlphanum && IsAscii c
  | .anyOf chars ranges => chars.all (fun c => c.isAlphanum && IsAscii c) && ranges.all alnumRange
  | .decimal => true
  | .noneOf _ | .space | .letter _ => false

/-- The class does not have the ASCII character. -/
def CharClass.avoids (c : Char) (k : CharClass) : Bool := !@CharClass.test asciiPlatform k c

theorem CharClass.test_of_avoids [Platform] {k : CharClass} {c : Char} (ascii : IsAscii c)
    (avoids : k.avoids c = true) : k.test c = false := by
  rw [test_ascii _ asciiPlatform k c ascii]
  simpa [CharClass.avoids] using avoids

theorem not_mem_of_avoids [Platform] {p : Pattern CharClass} {c : Char} (ascii : IsAscii c)
    (avoids : ∀ k ∈ p.classes, k.avoids c = true) {before u after : Str}
    (reads : Reads CharClass.test isWord p before u after) : c ∉ u := by
  intro hc
  obtain ⟨k, hk, passes⟩ := reads.classes c hc
  rw [CharClass.test_of_avoids ascii (avoids k hk)] at passes
  cases passes

theorem isAlphanum_of_alnumRange {r : Char × Char} (range : alnumRange r = true) {c : Char}
    (within : r.1 ≤ c ∧ c ≤ r.2) : IsAscii c ∧ c.isAlphanum = true := by
  have table : ∀ n < 128, (48 ≤ n ∧ n ≤ 57 ∨ 65 ≤ n ∧ n ≤ 90 ∨ 97 ≤ n ∧ n ≤ 122) →
      (Char.ofNat n).isAlphanum = true := by decide
  simp only [alnumRange, Bool.or_eq_true, Bool.and_eq_true, decide_eq_true_eq, or_assoc] at range
  have order (a b : Char) (le : a ≤ b) : a.toNat ≤ b.toNat := le
  have low := order _ _ within.1
  have high := order _ _ within.2
  have bounds : 48 ≤ c.toNat ∧ c.toNat ≤ 57 ∨ 65 ≤ c.toNat ∧ c.toNat ≤ 90 ∨
      97 ≤ c.toNat ∧ c.toNat ≤ 122 := by
    refine range.imp ?_ (Or.imp ?_ ?_)
    all_goals
      intro ends
      have first := order _ _ ends.1
      have last := order _ _ ends.2
      exact ⟨first.trans low, high.trans last⟩
  have ascii : c.toNat < 128 := by omega
  have alnum := table c.toNat ascii bounds
  rw [Char.ofNat_toNat] at alnum
  exact ⟨ascii, alnum⟩

variable [UnicodePlatform]

theorem isWord_of_isAlphanum {c : Char} (ascii : IsAscii c) (alnum : c.isAlphanum = true) :
    isWord c = true := by
  rw [isWord, Platform.isAlnum_ascii c ascii, alnum, Bool.true_or]

theorem CharClass.isWord_of_test {k : CharClass} (words : k.wordClass = true) {c : Char}
    (here : k.test c = true) : isWord c = true := by
  cases k with
  | lit d =>
    simp only [CharClass.wordClass, Bool.and_eq_true, decide_eq_true_eq] at words
    simp only [CharClass.test, decide_eq_true_eq] at here
    exact here ▸ isWord_of_isAlphanum words.2 words.1
  | anyOf chars ranges =>
    simp only [CharClass.wordClass, Bool.and_eq_true, List.all_eq_true] at words
    simp only [CharClass.test, Bool.or_eq_true, decide_eq_true_eq, List.any_eq_true,
      Bool.and_eq_true] at here
    rcases here with listed | ⟨r, hr, within⟩
    · have both := words.1 c listed
      exact isWord_of_isAlphanum (of_decide_eq_true both.2) both.1
    · obtain ⟨ascii, alnum⟩ := isAlphanum_of_alnumRange (words.2 r hr) within
      exact isWord_of_isAlphanum ascii alnum
  | decimal =>
    have alnum := UnicodePlatform.isAlnum_of_isDecimal c here
    rw [isWord, alnum, Bool.true_or]
  | noneOf | space | letter => cases words

theorem isWord_bracket {c : Char} (bracket : IsBracket c) : isWord c = false := by
  rcases bracket with rfl | rfl
  all_goals
    rw [isWord, Platform.isAlnum_ascii _ (by decide)]
    decide

end Classes

section Values

/-- The pattern can match the text somewhere. -/
def Spelled [Platform] (p : Pattern CharClass) (u : Str) : Prop :=
  ∃ before after, Reads CharClass.test isWord p before u after

/-- A pattern that matches the texts it can match wherever they stand between word
boundaries, and nothing with a bracket or out of a placeholder. -/
structure ValuePattern [Platform] (p : Pattern CharClass) : Prop where
  some : 0 < p.least
  stands : ∀ {before u after}, Reads CharClass.test isWord p before u after →
    Stands isWord before u after
  reads : ∀ {before u after}, Spelled p u → Stands isWord before u after →
    Reads CharClass.test isWord p before u after
  sought : Sought isWord IsBracket (Spelled p)
  inside : ∀ w ∈ placeholders, ∀ u, Spelled p u → ¬ u <:+: w.toList

/-- Every text of the pattern has a character that no placeholder has. -/
def beyondPlaceholders (p : Pattern CharClass) : Bool :=
  p.required.any fun k => placeholders.all fun w => w.toList.all fun c => k.avoids c

theorem placeholders_ascii {w : String} (hw : w ∈ placeholders) {c : Char} (hc : c ∈ w.toList) :
    IsAscii c := by
  have all : ∀ w ∈ placeholders, ∀ c ∈ w.toList, IsAscii c := by decide
  exact all w hw c hc

variable [UnicodePlatform]

theorem sought_spelled {p : Pattern CharClass} (some : 0 < p.least)
    (lasts : ∀ k ∈ p.lasts, k.wordClass = true)
    (clear : ∀ k ∈ p.classes, k.avoids '<' = true ∧ k.avoids '>' = true) :
    Sought isWord IsBracket (Spelled p) where
  ending u := by
    rintro ⟨before, after, reads⟩
    have long := reads.least_le
    obtain rfl | ⟨front, x, rfl⟩ := List.eq_nil_or_concat u
    · rw [List.length_nil] at long
      omega
    · obtain ⟨k, hk, passes⟩ := reads.lasts x (by simp)
      simpa [wordAt] using CharClass.isWord_of_test (lasts k hk) passes
  clear u := by
    rintro ⟨before, after, reads⟩ x hx bracket
    rcases bracket with rfl | rfl
    · exact not_mem_of_avoids (by decide) (fun k hk => (clear k hk).1) reads hx
    · exact not_mem_of_avoids (by decide) (fun k hk => (clear k hk).2) reads hx

/-- A body between two boundaries, decided by its text alone. -/
theorem valuePattern_delimited {ps : List (Pattern CharClass)}
    (shape : ps = .boundary :: ((ps.drop 1).dropLast ++ [.boundary]))
    (free : (Pattern.chain (ps.drop 1).dropLast).contextFree = true)
    (some : 0 < (Pattern.chain ps).least)
    (lasts : ∀ k ∈ (Pattern.chain ps).lasts, k.wordClass = true)
    (clear : ∀ k ∈ (Pattern.chain ps).classes, k.avoids '<' = true ∧ k.avoids '>' = true)
    (beyond : beyondPlaceholders (.chain ps) = true) : ValuePattern (.chain ps) where
  some := some
  stands reads := by
    rw [shape] at reads
    obtain ⟨start, -, finish⟩ := reads_delimited.mp reads
    exact ⟨start, finish⟩
  reads := by
    rintro before u after ⟨before', after', reads⟩ ⟨start, finish⟩
    rw [shape] at reads ⊢
    obtain ⟨-, inner, -⟩ := reads_delimited.mp reads
    exact reads_delimited.mpr ⟨start, inner.of_contextFree free, finish⟩
  sought := sought_spelled some lasts clear
  inside w hw u := by
    rintro ⟨before, after, reads⟩ infixed
    obtain ⟨k, hk, avoids⟩ := List.any_eq_true.mp beyond
    obtain ⟨x, hx, passes⟩ := reads.required k hk
    have placed := infixed.subset hx
    rw [CharClass.test_of_avoids (placeholders_ascii hw placed)
      (List.all_eq_true.mp (List.all_eq_true.mp avoids w hw) x placed)] at passes
    cases passes

theorem valuePattern_uuid : ValuePattern Patterns.uuid :=
  valuePattern_delimited rfl rfl (by decide) (by decide) (by decide) rfl

theorem valuePattern_isoTimestamp : ValuePattern Patterns.isoTimestamp :=
  valuePattern_delimited rfl rfl (by decide) (by decide) (by decide) rfl

theorem valuePattern_isoDate : ValuePattern Patterns.isoDate :=
  valuePattern_delimited rfl rfl (by decide) (by decide) (by decide) rfl

theorem valuePattern_email : ValuePattern Patterns.email :=
  valuePattern_delimited rfl rfl (by decide) (by decide) (by decide) rfl

theorem valuePattern_ip : ValuePattern Patterns.ip :=
  valuePattern_delimited rfl rfl (by decide) (by decide) (by decide) rfl

theorem valuePattern_memoryAddress : ValuePattern Patterns.memoryAddress :=
  valuePattern_delimited rfl rfl (by decide) (by decide) (by decide) rfl

theorem valuePattern_longNumber : ValuePattern Patterns.longNumber :=
  valuePattern_delimited rfl rfl (by decide) (by decide) (by decide) rfl

/-- A hexadecimal run stands behind no `0x`: an x would go on the word. -/
theorem valuePattern_hexRun : ValuePattern Patterns.hexRun := by
  have shape : Patterns.hexRun = .chain (.boundary :: ([.notBehind [.lit '0', .lit 'x'],
    .atLeast 12 Patterns.hex] ++ [.boundary])) := rfl
  have body {before u after} (reads : Reads CharClass.test isWord
      (.chain [.notBehind [.lit '0', .lit 'x'], .atLeast 12 Patterns.hex]) before u after) :
      12 ≤ u.length ∧ ∀ x ∈ u, Patterns.hex.test x = true := by
    obtain ⟨_, _, rfl, ⟨rfl, -⟩, v, w, rfl, ⟨long, -, all⟩, rfl⟩ := reads
    simpa using ⟨long, all⟩
  refine ⟨by decide, ?_, ?_, sought_spelled (by decide) (by decide) (by decide), ?_⟩
  · intro before u after reads
    rw [shape, reads_delimited] at reads
    exact ⟨reads.1, reads.2.2⟩
  · rintro before u after ⟨before', after', reads⟩ ⟨start, finish⟩
    rw [shape, reads_delimited] at reads ⊢
    obtain ⟨long, all⟩ := body reads.2.1
    refine ⟨start, ⟨[], u, rfl, ⟨rfl, ?_⟩, u, [], by simp, ⟨long, by simp, all⟩, rfl⟩, finish⟩
    cases u with
    | nil => simp at long
    | cons x rest =>
      have inWord : isWord x = true :=
        CharClass.isWord_of_test (k := Patterns.hex) (by decide) (all x List.mem_cons_self)
      cases before with
      | nil => rfl
      | cons y before =>
        have outside : isWord y = false := by simpa [wordAt, inWord] using start
        have other : y ≠ 'x' := by
          rintro rfl
          rw [isWord, Platform.isAlnum_ascii _ (by decide)] at outside
          exact absurd outside (by decide)
        simp [behind, CharClass.test, other]
  · rintro w hw u ⟨before, after, reads⟩ infixed
    rw [shape, reads_delimited] at reads
    obtain ⟨long, all⟩ := body reads.2.1
    have few : ∀ w ∈ placeholders,
        w.toList.countP (@CharClass.test asciiPlatform Patterns.hex) < 12 := by decide
    have count : u.countP Patterns.hex.test = u.length := List.countP_eq_length.mpr all
    have within := infixed.sublist.countP_le (p := Patterns.hex.test)
    have bound : w.toList.countP Patterns.hex.test < 12 := few w hw
    omega

theorem valuePattern_all : ∀ p ∈ valuePatterns, ValuePattern p := by
  simp only [valuePatterns, List.forall_mem_cons, List.not_mem_nil, false_implies, implies_true,
    and_true]
  exact ⟨valuePattern_uuid, valuePattern_isoTimestamp, valuePattern_isoDate, valuePattern_email,
    valuePattern_ip, valuePattern_memoryAddress, valuePattern_hexRun, valuePattern_longNumber⟩

end Values

section Rules

/-- A rule keeps the beginning of what it matches and places text that no text without a
character of its own can overlap. -/
def Masks [Platform] (rule : Pattern CharClass × (Cursor Char → Str)) (text : Str) : Prop :=
  ∃ kept placed, rule.2 = (fun d => kept d ++ placed d) ∧
    ∀ S : Str → Prop, (∀ w ∈ placeholders, ∀ u, S u → ¬ u <:+: w.toList) →
      Tidy CharClass.test isWord IsBracket S rule.1 kept placed text

variable [UnicodePlatform]

theorem isWord_mark {c : Char} (mark : c = ':' ∨ c = '=' ∨ c = ' ') : isWord c = false := by
  rcases mark with rfl | rfl | rfl
  all_goals
    rw [isWord, Platform.isAlnum_ascii _ (by decide)]
    decide

theorem placeholder_opens {w : String} (hw : w ∈ placeholders) :
    ∃ mark x rest, w.toList = mark ++ x :: rest ∧ (∀ y ∈ mark, isWord y = false) ∧
      IsBracket x := by
  have table : ∀ w ∈ placeholders, ∃ mark ∈ [[], [':'], ['=']],
      w.toList = mark ++ '<' :: w.toList.drop (mark.length + 1) := by decide
  obtain ⟨mark, hm, split⟩ := table w hw
  refine ⟨mark, '<', _, split, fun y hy => isWord_mark ?_, .inl rfl⟩
  have marks : ∀ mark ∈ [[], [':'], ['=']], ∀ y ∈ mark, y = ':' ∨ y = '=' ∨ y = ' ' := by decide
  exact marks mark hm y hy

theorem placeholder_closes {w : String} (hw : w ∈ placeholders) :
    ∃ rest x, w.toList = rest ++ [x] ∧ IsBracket x ∧ isWord x = false := by
  have table : ∀ w ∈ placeholders, w.toList = w.toList.dropLast ++ ['>'] := by decide
  exact ⟨_, '>', table w hw, .inr rfl, isWord_bracket (.inr rfl)⟩

theorem tidy_value {p : Pattern CharClass} (hp : ValuePattern p) {w : String}
    (hw : w ∈ placeholders) (text : Str) {S : Str → Prop}
    (inside : ∀ w ∈ placeholders, ∀ u, S u → ¬ u <:+: w.toList) :
    Tidy CharClass.test isWord IsBracket S p (fun _ => []) (fixedText w) text := by
  intro c d _ _ found
  obtain ⟨u, after, before, reads⟩ := reads_of_first found
  obtain ⟨start, finish⟩ := hp.stands reads
  refine ⟨?_, ?_, ⟨u, after, fun some => absurd rfl some⟩, placeholder_opens hw,
    placeholder_closes hw, inside w hw⟩
  · intro inWord
    rw [after]
    simpa [inWord] using start.symm
  · intro inWord
    rw [before] at inWord
    simpa [inWord] using finish.symm

theorem masks_value {p : Pattern CharClass} (hp : ValuePattern p) {w : String}
    (hw : w ∈ placeholders) (text : Str) : Masks (p, fixedText w) text :=
  ⟨fun _ => [], fixedText w, rfl, fun _ => tidy_value hp hw text⟩

/-- A rule that keeps a label between word boundaries. -/
theorem masks_label {label rest : Pattern CharClass} (other : 1 ∉ rest.groupNumbers)
    {w : String} (hw : w ∈ placeholders) {text : Str}
    (ends : ∀ {before u after}, Reads CharClass.test isWord rest before u after →
      wordAt isWord before = true → wordAt isWord (u ++ after) = false)
    (finish : ∀ c d : Cursor Char, c.before.reverse ++ c.after = text →
      first CharClass.test isWord (.seq .boundary (.seq (.group 1 label) rest)) c = some d →
      wordAt isWord d.before = true → wordAt isWord d.after = false) :
    Masks (.seq .boundary (.seq (.group 1 label) rest), fun d => d.groupText 1 ++ w.toList)
      text := by
  refine ⟨fun d => d.groupText 1, fun _ => w.toList, rfl, fun S inside c d _ here found => ?_⟩
  obtain ⟨e, he, found'⟩ := first_seq found
  have start : wordAt isWord c.before ≠ wordAt isWord c.after ∧ e = c := by
    rw [ways] at he
    split at he
    · exact absurd he List.not_mem_nil
    · rename_i differ
      exact ⟨differ, List.mem_singleton.mp he⟩
  obtain ⟨start, rfl⟩ := start
  obtain ⟨u, after, before, -, reads⟩ := reads_group_seq other (List.mem_of_head? found')
  refine ⟨?_, finish e d here found, ⟨u, after, fun _ => ends reads⟩, placeholder_opens hw,
    placeholder_closes hw, inside w hw⟩
  intro inWord
  simpa [inWord] using start.symm

theorem masks_labelNumber (text : Str) :
    Masks (Patterns.labelNumber, fun d => d.groupText 1 ++ "=<id>".toList) text := by
  refine masks_label (by decide) (w := "=<id>") (by decide) ?_ ?_
  · rintro before u after ⟨v, w, rfl, ⟨long, -, all⟩, -⟩ -
    cases v with
    | nil => simp at long
    | cons x v =>
      have mark := all x List.mem_cons_self
      simp only [CharClass.test, List.any_nil, Bool.or_false, decide_eq_true_eq, List.mem_cons,
        List.not_mem_nil, or_false] at mark
      exact isWord_mark mark
  · intro c d here found inWord
    obtain ⟨u, after, before, reads⟩ := reads_of_first found
    have shape : Patterns.labelNumber = .chain ([_, _, _, _] ++ [.boundary]) := rfl
    change Reads CharClass.test isWord Patterns.labelNumber _ _ _ at reads
    rw [shape, reads_chain_append] at reads
    obtain ⟨v, w, rfl, -, _, _, rfl, ⟨rfl, finish⟩, rfl⟩ := reads
    rw [before, List.append_nil, List.append_nil] at inWord
    rw [List.nil_append, inWord] at finish
    simpa using finish.symm

omit [UnicodePlatform] in
/-- A request id is read to its end. -/
theorem first_requestId_stops [Platform] {c d : Cursor Char}
    (found : first CharClass.test isWord Patterns.requestId c = some d) :
    ∀ x ∈ d.after.head?, Patterns.idChar.test x = false := by
  obtain ⟨_, -, found⟩ := first_seq found
  obtain ⟨_, -, found⟩ := first_seq found
  obtain ⟨_, -, found⟩ := first_seq found
  obtain ⟨e, -, found⟩ := first_seq found
  change first CharClass.test isWord (.chain [_]) e = some d at found
  rw [first_chain_singleton, first_group, Option.map_eq_some_iff] at found
  obtain ⟨run, read, rfl⟩ := found
  have stops := first_run_stops read
  exact stops

theorem masks_requestId {text : Str} (ascii : ∀ c ∈ text, IsAscii c) :
    Masks (Patterns.requestId, fun d => d.groupText 1 ++ ":<request_id>".toList) text := by
  refine masks_label (by decide) (w := ":<request_id>") (by decide) ?_ ?_
  · rintro before u after ⟨_, u, rfl, ⟨rfl, differ⟩, -⟩ inWord
    simpa [inWord] using differ.symm
  · intro c d here found _
    have stops := first_requestId_stops found
    obtain ⟨u, after, -, -⟩ := reads_of_first found
    cases rest : d.after with
    | nil => rfl
    | cons x rest' =>
      have other := stops x (by rw [rest]; rfl)
      have inText : x ∈ text := by simp [← here, after, rest]
      have table : ∀ n < 128,
          (@CharClass.test asciiPlatform Patterns.idChar (Char.ofNat n)) = false →
          @isWord asciiPlatform (Char.ofNat n) = false := by decide
      have plain := table x.toNat (ascii x inText)
      rw [Char.ofNat_toNat, ← isWord_ascii _ _ x (ascii x inText)] at plain
      exact plain other

/-- The masking rules but for `_REQUEST_ID_RE`. -/
def otherRules : List (Pattern CharClass × (Cursor Char → Str)) :=
  maskingRules.take 6 ++ maskingRules.drop 7

theorem otherRules_mask (text : Str) : ∀ rule ∈ otherRules, 0 < rule.1.least ∧ Masks rule text := by
  have value {p : Pattern CharClass} (hp : p ∈ valuePatterns) {w : String}
      (hw : w ∈ placeholders) : 0 < p.least ∧ Masks (p, fixedText w) text :=
    ⟨(valuePattern_all p hp).some, masks_value (valuePattern_all p hp) hw text⟩
  simp only [otherRules, maskingRules, substitutions, List.take_succ_cons, List.take_zero,
    List.drop_succ_cons, List.drop_zero, List.cons_append, List.nil_append,
    List.forall_mem_cons, List.not_mem_nil, false_implies, implies_true, and_true]
  exact ⟨value (by simp [valuePatterns]) (by decide), value (by simp [valuePatterns]) (by decide),
    value (by simp [valuePatterns]) (by decide), value (by simp [valuePatterns]) (by decide),
    value (by simp [valuePatterns]) (by decide), value (by simp [valuePatterns]) (by decide),
    ⟨by decide, masks_labelNumber text⟩,
    value (by simp [valuePatterns]) (by decide), value (by simp [valuePatterns]) (by decide)⟩

theorem maskingRules_mask {text : Str} (ascii : ∀ c ∈ text, IsAscii c) :
    ∀ rule ∈ maskingRules, 0 < rule.1.least ∧ Masks rule text := by
  have split : maskingRules = maskingRules.take 6 ++ (Patterns.requestId, fun m : Cursor Char =>
    m.groupText 1 ++ ":<request_id>".toList) :: maskingRules.drop 7 := rfl
  have others := List.forall_mem_append.mp (otherRules_mask text)
  rw [split, List.forall_mem_append, List.forall_mem_cons]
  exact ⟨others.1, ⟨by decide, masks_requestId ascii⟩, others.2⟩

/-- What is free of a value pattern is left free of it by rules that mask the texts they
are given, all of them with the property `P`. -/
theorem not_found_rules {p : Pattern CharClass} (hp : ValuePattern p) {P : Str → Prop}
    (rules : List (Pattern CharClass × (Cursor Char → Str)))
    (masking : ∀ rule ∈ rules, ∀ text, P text →
      (0 < rule.1.least ∧ Masks rule text) ∧ P (reSub rule.1 rule.2 text))
    {text : Str} (here : P text) (absent : ¬ Found isWord (Spelled p) text) :
    ¬ Found isWord (Spelled p)
      (rules.foldl (fun normalized s => reSub s.1 s.2 normalized) text) := by
  induction rules generalizing text with
  | nil => exact absent
  | cons rule rules ih =>
    rw [List.forall_mem_cons] at masking
    obtain ⟨⟨some, kept, placed, shape, tidy⟩, next⟩ := masking.1 text here
    refine ih masking.2 next ?_
    change ¬ Found isWord _ (sub CharClass.test isWord rule.1 rule.2 text)
    rw [shape]
    exact not_found_sub some hp.sought (tidy _ hp.inside) absent

/-- The rule of a value pattern leaves no text of it. -/
theorem not_found_own {p : Pattern CharClass} (hp : ValuePattern p) {w : String}
    (hw : w ∈ placeholders) (text : Str) :
    ¬ Found isWord (Spelled p) (reSub p (fixedText w) text) := by
  refine not_found_sub_self hp.some hp.sought (tidy_value hp hw text hp.inside) ?_
  intro before u rest spelled stands stuck
  exact first_eq_none_iff.mp stuck u rest rfl (hp.reads spelled stands)

end Rules

section Whitespace

variable [UnicodePlatform]

theorem isWord_of_isSpace {c : Char} (space : Platform.isSpace c = true) : isWord c = false := by
  have underscore : c ≠ '_' := by
    rintro rfl
    rw [Platform.isSpace_ascii _ (by decide)] at space
    exact absurd space (by decide)
  simp [isWord, UnicodePlatform.isAlnum_of_isSpace c space, underscore]

/-- A space that has replaced white space is in no text of `S`. -/
theorem not_found_spaces {S : Str → Prop} (sought : Sought isWord (· = ' ') S) {text : Str}
    (absent : ¬ Found isWord S text) :
    ¬ Found isWord S (reSub Patterns.spaces (fixedText " ") text) := by
  suffices tidy : Tidy CharClass.test isWord (· = ' ') S Patterns.spaces (fun _ => [])
      (fixedText " ") text from not_found_sub (by decide) sought tidy absent
  intro c d _ _ found
  obtain ⟨u, after, before, long, -, all⟩ := reads_of_first found
  have some : u ≠ [] := by
    rintro rfl
    simp at long
  have outside : ∀ x ∈ u, isWord x = false := fun x hx => isWord_of_isSpace (all x hx)
  refine ⟨fun _ => ?_, fun inWord => ?_, ⟨u, after, fun some => absurd rfl some⟩,
    ⟨[], ' ', [], rfl, by simp, rfl⟩, ⟨[], ' ', rfl, rfl, isWord_mark (by simp)⟩, ?_⟩
  · rw [after, wordAt_append_of_ne_nil some]
    exact wordAt_eq_false outside
  · rw [before, wordAt_reverse_append some, wordAt_eq_false (by simpa using outside)] at inWord
    cases inWord
  · intro v hv infixed
    have clear := sought.clear v hv
    cases v with
    | nil => exact sought.ne_nil hv rfl
    | cons x v =>
      have placed : x ∈ [' '] := infixed.subset List.mem_cons_self
      exact clear x List.mem_cons_self (List.mem_singleton.mp placed)

omit [UnicodePlatform] in
theorem strip_split [Platform] (s : Str) : ∃ front rest, s = front ++ (strip s ++ rest) ∧
    (∀ c ∈ front, Platform.isSpace c = true) ∧ ∀ c ∈ rest, Platform.isSpace c = true := by
  refine ⟨s.takeWhile Platform.isSpace,
    ((s.dropWhile Platform.isSpace).reverse.takeWhile Platform.isSpace).reverse, ?_,
    fun c hc => List.mem_takeWhile_imp hc, fun c hc => ?_⟩
  · rw [strip, ← List.reverse_append, List.takeWhile_append_dropWhile, List.reverse_reverse,
      List.takeWhile_append_dropWhile]
  · rw [List.mem_reverse] at hc
    exact List.mem_takeWhile_imp hc

theorem not_found_strip {S : Str → Prop} {text : Str} (absent : ¬ Found isWord S text) :
    ¬ Found isWord S (strip text) := by
  obtain ⟨left, right, split, leftSpace, rightSpace⟩ := strip_split text
  have leftStop : wordAt isWord left.reverse = false :=
    wordAt_eq_false fun c hc => isWord_of_isSpace (leftSpace c (List.mem_reverse.mp hc))
  have rightStop : wordAt isWord right = false :=
    wordAt_eq_false fun c hc => isWord_of_isSpace (rightSpace c hc)
  rintro ⟨front, u, rest, inner, hu, start, finish⟩
  refine absent ⟨left ++ front, u, rest ++ right, ?_, hu, ?_, ?_⟩
  · rw [split, inner]
    simp
  · rw [List.reverse_append, wordAt_append_of_stop leftStop, ← List.append_assoc,
      wordAt_append_of_stop rightStop]
    exact start
  · rw [List.reverse_append, ← List.append_assoc, wordAt_append_of_stop leftStop,
      wordAt_append_of_stop rightStop]
    exact finish

/-- A timestamp holds no space, or begins with a date before one. -/
theorem found_date_of_timestamp {text : Str}
    (found : Found isWord (Spelled Patterns.isoTimestamp) text) :
    Found isWord (Spelled Patterns.isoDate) text ∨
      Found isWord (fun u => Spelled Patterns.isoTimestamp u ∧ ' ' ∉ u) text := by
  obtain ⟨front, u, rest, split, ⟨before, after, reads⟩, stands⟩ := found
  have whole := reads
  obtain ⟨_, _, rfl, ⟨rfl, -⟩, day, _, rfl, isDay, _, times, rfl, isMark, isTimes⟩ := reads
  obtain ⟨c, rfl, mark⟩ := reads_one.mp isMark
  have ending := (sought_spelled (p := Patterns.isoDay) (by decide) (by decide) (by decide)).ending
    day ⟨_, _, isDay⟩
  have some : day ≠ [] := by
    rintro rfl
    simp [wordAt] at ending
  obtain rfl | rfl : c = ' ' ∨ c = 'T' := by simpa [CharClass.test] using mark
  · left
    have start := stands.1
    rw [List.nil_append, List.append_assoc, wordAt_append_of_ne_nil some] at start
    have dayStands : Stands isWord front.reverse day (' ' :: (times ++ rest)) := by
      refine ⟨?_, ?_⟩
      · rwa [wordAt_append_of_ne_nil some]
      · rw [wordAt_reverse_append some, ending, wordAt, isWord_mark (by simp)]
        decide
    refine ⟨front, day, ' ' :: (times ++ rest), by simp [split], ?_, dayStands⟩
    refine ⟨front.reverse, ' ' :: (times ++ rest), ?_⟩
    change Reads CharClass.test isWord
      (.chain (.boundary :: ([Patterns.isoDay] ++ [.boundary]))) _ _ _
    exact reads_delimited.mpr ⟨dayStands.1, ⟨day, [], by simp,
      isDay.of_contextFree (by decide), rfl⟩, dayStands.2⟩
  · right
    have dayClear := not_mem_of_avoids (c := ' ') (by decide) (by decide) isDay
    have timesClear := not_mem_of_avoids (c := ' ') (by decide) (by decide) isTimes
    refine ⟨front, _, rest, split, ⟨⟨before, after, whole⟩, ?_⟩, stands⟩
    simp [dayClear, timesClear]

end Whitespace

section Complete

/-- The message with its values masked, its white space as it was. -/
def masked [Platform] (message : Str) : Str :=
  maskingRules.foldl (fun normalized s => reSub s.1 s.2 normalized) (strip message)

theorem normalizeMessage_eq [Platform] (message : Str) : normalizeMessage message =
    strip (reSub Patterns.spaces (fixedText " ") (masked message)) := by
  have split : substitutions = maskingRules ++ [(Patterns.spaces, fixedText " ")] := rfl
  unfold normalizeMessage normalizeCommon masked
  rw [split, List.foldl_append, List.foldl_cons, List.foldl_nil]

variable [UnicodePlatform]

theorem foldl_ascii {rules : List (Pattern CharClass × (Cursor Char → Str))}
    (masking : ∀ rule ∈ rules, rule ∈ maskingRules) {text : Str} (ascii : ∀ c ∈ text, IsAscii c) :
    ∀ c ∈ rules.foldl (fun normalized s => reSub s.1 s.2 normalized) text, IsAscii c := by
  induction rules generalizing text with
  | nil => exact ascii
  | cons rule rules ih =>
    rw [List.forall_mem_cons] at masking
    exact ih masking.2
      (reSub_ascii (substitutions_ascii rule (List.mem_of_mem_take masking.1)) ascii)

omit [UnicodePlatform] in
/-- Each value pattern has its rule. -/
theorem own_rule : ∀ p ∈ valuePatterns, ∃ rulesBefore w rulesAfter, w ∈ placeholders ∧
    maskingRules = rulesBefore ++ (p, fixedText w) :: rulesAfter := by
  simp only [valuePatterns, List.forall_mem_cons, List.not_mem_nil, false_implies, implies_true,
    and_true]
  exact ⟨⟨maskingRules.take 0, "<uuid>", _, by decide, rfl⟩,
    ⟨maskingRules.take 1, "<timestamp>", _, by decide, rfl⟩,
    ⟨maskingRules.take 2, "<date>", _, by decide, rfl⟩,
    ⟨maskingRules.take 3, "<email>", _, by decide, rfl⟩,
    ⟨maskingRules.take 4, "<ip>", _, by decide, rfl⟩,
    ⟨maskingRules.take 5, "<memory_address>", _, by decide, rfl⟩,
    ⟨maskingRules.take 8, "<hex>", _, by decide, rfl⟩,
    ⟨maskingRules.take 9, "<number>", _, by decide, rfl⟩⟩

theorem not_found_masked {p : Pattern CharClass} (hp : p ∈ valuePatterns) {message : Str}
    (ascii : ∀ c ∈ message, IsAscii c) : ¬ Found isWord (Spelled p) (masked message) := by
  obtain ⟨rulesBefore, w, rulesAfter, hw, split⟩ := own_rule p hp
  have value := valuePattern_all p hp
  have earlier : ∀ rule ∈ rulesBefore, rule ∈ maskingRules := by simp +contextual [split]
  have later : ∀ rule ∈ rulesAfter, rule ∈ maskingRules := by simp +contextual [split]
  have own : (p, fixedText w) ∈ maskingRules := by simp [split]
  have kept {rule} (masking : rule ∈ maskingRules) {text : Str} (ascii : ∀ c ∈ text, IsAscii c) :
      ∀ c ∈ reSub rule.1 rule.2 text, IsAscii c :=
    reSub_ascii (substitutions_ascii rule (List.mem_of_mem_take masking)) ascii
  unfold masked
  rw [split, List.foldl_append, List.foldl_cons]
  refine not_found_rules value rulesAfter (P := fun text => ∀ c ∈ text, IsAscii c) ?_
    (kept own (foldl_ascii earlier (strip_ascii ascii))) (not_found_own value hw _)
  intro rule hr text ascii
  exact ⟨maskingRules_mask ascii rule (later rule hr), kept (later rule hr) ascii⟩

theorem sought_space {S : Str → Prop} (sought : Sought isWord IsBracket S)
    (clear : ∀ u, S u → ' ' ∉ u) : Sought isWord (· = ' ') S where
  ending := sought.ending
  clear u hu _ hx space := clear u hu (space ▸ hx)

/-- Collapsing white space makes no text of a value pattern. -/
theorem not_found_normalizeMessage {message : Str}
    (free : ∀ p ∈ valuePatterns, ¬ Found isWord (Spelled p) (masked message))
    {p : Pattern CharClass} (hp : p ∈ valuePatterns) :
    ¬ Found isWord (Spelled p) (normalizeMessage message) := by
  have absent (p : Pattern CharClass) (hp : p ∈ valuePatterns)
      (clear : ∀ k ∈ p.classes, k.avoids ' ' = true) :
      ¬ Found isWord (Spelled p) (normalizeMessage message) := by
    rw [normalizeMessage_eq]
    refine not_found_strip (not_found_spaces ?_ (free p hp))
    exact sought_space (valuePattern_all p hp).sought fun u ⟨before, after, reads⟩ =>
      not_mem_of_avoids (by decide) clear reads
  have table : ∀ p ∈ valuePatterns, p = Patterns.isoTimestamp ∨
      ∀ k ∈ p.classes, k.avoids ' ' = true := by
    simp only [valuePatterns, List.forall_mem_cons, List.not_mem_nil, false_implies,
      implies_true, and_true]
    exact ⟨.inr (by decide), .inl trivial, .inr (by decide), .inr (by decide), .inr (by decide),
      .inr (by decide), .inr (by decide), .inr (by decide)⟩
  rcases table p hp with rfl | clear
  · intro found
    rcases found_date_of_timestamp found with date | spaceless
    · exact absent Patterns.isoDate (by simp [valuePatterns]) (by decide) date
    · revert spaceless
      rw [normalizeMessage_eq]
      refine not_found_strip (not_found_spaces ?_ ?_)
      · exact sought_space ⟨fun u hu => valuePattern_isoTimestamp.sought.ending u hu.1,
          fun u hu => valuePattern_isoTimestamp.sought.clear u hu.1⟩ fun u hu => hu.2
      · rintro ⟨front, u, rest, split, hu, stands⟩
        exact free _ hp ⟨front, u, rest, split, hu.1, stands⟩
  · exact absent p hp clear

/-- No value pattern finds anything in the normal form of an ASCII message. -/
theorem masking_complete (message : Str) (ascii : ∀ c ∈ message, IsAscii c) :
    ∀ p ∈ valuePatterns, reSearch p (normalizeMessage message) = none := by
  intro p hp
  refine search_eq_none_iff.mpr ?_
  rintro ⟨front, u, rest, split, reads⟩
  exact not_found_normalizeMessage (fun p hp => not_found_masked hp ascii) hp
    ⟨front, u, rest, split, ⟨_, _, reads⟩, (valuePattern_all p hp).stands reads⟩

end Complete

/-- The date of a message is masked. -/
theorem masking_complete_failedLogin : letI := foldingPlatform
    reSearch Patterns.isoDate (normalizeMessage
      "2024-01-02 login of a@b.cd from 10.0.0.1 failed: 123456".toList) = none :=
  letI := foldingPlatform
  masking_complete _ (isAscii_of_all (by decide)) _ (by simp [valuePatterns])

end LogLens
