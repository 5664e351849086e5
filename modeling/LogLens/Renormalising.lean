import LogLens.Whitespace
import LogLens.Labels

/-! Normalising a normal form: it stays as it is unless `_REQUEST_ID_RE` has put in a
placeholder that it reads again, or collapsed white space has joined a label and its value. -/

namespace LogLens
open BacktrackingRegex

section Parts

/-- A part of the text is read when its white space is collapsed. -/
def LooseOccurs [Platform] (p : Pattern CharClass) (text : Str) : Prop :=
  ∃ front u rest, text = front ++ (u ++ rest) ∧
    Reads CharClass.test isWord p front.reverse (collapse u) rest

theorem Collapses.split_solidEnds [Platform] {text front' u' rest' : Str} (ends : SolidEnds u')
    (h : Collapses text (front' ++ (u' ++ rest'))) :
    ∃ front u rest, text = front ++ (u ++ rest) ∧ Collapses front front' ∧ Collapses u u' ∧
      Collapses rest rest' := by
  obtain ⟨c, u', rfl⟩ := List.exists_cons_of_ne_nil ends.some
  have head := ends.first c rfl
  obtain ⟨front, rest, rfl, left, right⟩ := Collapses.split head h
  rcases List.eq_nil_or_concat' u' with rfl | ⟨u', d, rfl⟩
  · exact ⟨front, [c], rest, rfl, left, .solid head .nil, right⟩
  · have last := ends.last d (List.getLast?_concat (l := c :: u'))
    have right' : Collapses rest (u' ++ d :: rest') := by simpa using right
    obtain ⟨u, rest, rfl, inner, right⟩ := Collapses.split last right'
    exact ⟨front, c :: (u ++ [d]), rest, by simp, left, .solid head (inner.join last .nil), right⟩

theorem SolidEnds.of_collapse [Platform] {u : Str} (ends : SolidEnds (LogLens.collapse u)) :
    SolidEnds u where
  some none := ends.some ((collapses u).ne_nil.mp none)
  first x hx := by
    obtain ⟨c, rest, whole⟩ := List.exists_cons_of_ne_nil ends.some
    have head := ends.first c (by rw [whole]; rfl)
    have same := ((collapses u).head_solid head).mpr (by rw [whole]; rfl)
    obtain rfl : c = x := Option.some.inj (same.symm.trans hx)
    exact head
  last x hx := by
    obtain ⟨r, d, whole⟩ := (List.eq_nil_or_concat' (LogLens.collapse u)).resolve_left ends.some
    have last := ends.last d (by simp [whole])
    have split := collapses u
    rw [whole] at split
    obtain ⟨front, rest, u_eq, -, right⟩ := split.split last
    obtain rfl := right.ne_nil.mpr rfl
    obtain rfl : d = x := by simpa [u_eq] using hx
    exact last

/-- What begins and ends in other characters lies within the white space around a text. -/
theorem SolidEnds.within [Platform] {u : Str} (ends : SolidEnds u) {left s right front rest : Str}
    (spaces : ∀ c ∈ left, Platform.isSpace c = true)
    (spaces' : ∀ c ∈ right, Platform.isSpace c = true)
    (split : left ++ (s ++ right) = front ++ (u ++ rest)) :
    ∃ front' rest', front = left ++ front' ∧ rest = rest' ++ right ∧
      s = front' ++ (u ++ rest') := by
  have behind : ∃ front', front = left ++ front' ∧ s ++ right = front' ++ (u ++ rest) := by
    rw [List.append_eq_append_iff] at split
    rcases split with ⟨z, rfl, past⟩ | ⟨z, rfl, past⟩
    · exact ⟨z, rfl, past⟩
    · cases z with
      | nil => exact ⟨[], by simp, past.symm⟩
      | cons x z =>
        obtain ⟨y, u, rfl⟩ := List.exists_cons_of_ne_nil ends.some
        obtain ⟨rfl, -⟩ := List.cons.inj past
        have solid := ends.first y rfl
        simp [spaces y (by simp)] at solid
  obtain ⟨front', rfl, inner⟩ := behind
  rw [← List.append_assoc, List.append_eq_append_iff] at inner
  rcases inner with ⟨z, past, rfl⟩ | ⟨z, rfl, rfl⟩
  · rcases List.eq_nil_or_concat' z with rfl | ⟨z, x, rfl⟩
    · exact ⟨front', [], rfl, rfl, by simpa using past.symm⟩
    · obtain ⟨u, y, rfl⟩ := (List.eq_nil_or_concat' u).resolve_left ends.some
      have solid := ends.last y (by simp)
      rw [← List.append_assoc, ← List.append_assoc] at past
      obtain rfl : y = x := List.singleton_inj.mp (List.append_inj' past rfl).2
      simp [spaces' y (by simp)] at solid
  · exact ⟨front', z, rfl, rfl, by simp⟩

variable [UnicodePlatform]

theorem wordAt_collapse (text : Str) : wordAt isWord (collapse text) = wordAt isWord text := by
  have h := collapses text
  generalize collapse text = result at h
  cases h with
  | nil | solid => rfl
  | gap space next => exact (isWord_mark (by simp)).trans (isWord_of_isSpace space).symm

theorem wordAt_reverse_collapse (text : Str) :
    wordAt isWord (collapse text).reverse = wordAt isWord text.reverse := by
  rcases List.eq_nil_or_concat' text with rfl | ⟨front, d, rfl⟩
  · rfl
  cases space : Platform.isSpace d with
  | false =>
    have parts : collapse (front ++ [d]) = collapse front ++ [d] := collapse_append space
    rw [parts, List.reverse_append, List.reverse_append]
    rfl
  | true =>
    have behind : wordAt isWord (front ++ [d]).reverse = false := by
      simp [wordAt, isWord_of_isSpace space]
    have h := collapses (front ++ [d])
    generalize collapse (front ++ [d]) = result at h
    rw [behind]
    rcases List.eq_nil_or_concat' result with rfl | ⟨result, x, rfl⟩
    · rfl
    cases solid : Platform.isSpace x with
    | true => simp [wordAt, isWord_of_isSpace solid]
    | false =>
      obtain ⟨text, rest, split, -, right⟩ := h.split solid
      obtain rfl := right.ne_nil.mpr rfl
      obtain ⟨-, same⟩ := List.append_inj' split rfl
      obtain rfl : d = x := List.singleton_inj.mp same
      simp [space] at solid

/-- A pattern without lookbehind that begins and ends at no white space. -/
structure SolidPattern (p : Pattern CharClass) : Prop where
  some : 0 < p.least
  blind : p.lookbehind = []
  firsts : ∀ k ∈ p.firsts, k.solid = true
  lasts : ∀ k ∈ p.lasts, k.solid = true

theorem SolidPattern.ends {p : Pattern CharClass} (h : SolidPattern p) {before u after : Str}
    (reads : Reads CharClass.test isWord p before u after) : SolidEnds u where
  some := by
    rintro rfl
    exact absurd (h.some.trans_le reads.least_le) (Nat.lt_irrefl 0)
  first x hx := by
    obtain ⟨k, hk, passes⟩ := reads.firsts x hx
    exact CharClass.not_isSpace_of_solid (h.firsts k hk) passes
  last x hx := by
    obtain ⟨k, hk, passes⟩ := reads.lasts x hx
    exact CharClass.not_isSpace_of_solid (h.lasts k hk) passes

/-- The parts that a pattern reads in a text with its white space collapsed. -/
theorem SolidPattern.occurs_collapse {p : Pattern CharClass} (h : SolidPattern p) (text : Str) :
    Occurs CharClass.test isWord p (collapse text) ↔ LooseOccurs p text := by
  constructor
  · rintro ⟨front', u', rest', split, reads⟩
    have whole := collapses text
    rw [split] at whole
    obtain ⟨front, u, rest, rfl, left, inner, right⟩ := whole.split_solidEnds (h.ends reads)
    refine ⟨front, u, rest, rfl, ?_⟩
    rw [inner.collapse_eq]
    refine reads.of_wordAt h.blind ?_ ?_
    · rw [← left.collapse_eq, wordAt_reverse_collapse]
    · rw [← right.collapse_eq, wordAt_collapse]
  · rintro ⟨front, u, rest, rfl, reads⟩
    refine ⟨collapse front, collapse u, collapse rest,
      (h.ends reads).of_collapse.collapse_append front rest, ?_⟩
    refine reads.of_wordAt h.blind ?_ ?_
    · rw [wordAt_reverse_collapse]
    · rw [wordAt_collapse]

theorem SolidPattern.looseOccurs_strip {p : Pattern CharClass} (h : SolidPattern p) (text : Str) :
    LooseOccurs p (strip text) ↔ LooseOccurs p text := by
  obtain ⟨left, right, split, spaces, spaces'⟩ := strip_split text
  have leftStop : wordAt isWord left.reverse = false :=
    wordAt_eq_false fun c hc => isWord_of_isSpace (spaces c (List.mem_reverse.mp hc))
  have rightStop : wordAt isWord right = false :=
    wordAt_eq_false fun c hc => isWord_of_isSpace (spaces' c hc)
  constructor
  · rintro ⟨front, u, rest, inner, reads⟩
    refine ⟨left ++ front, u, rest ++ right, ?_, reads.of_wordAt h.blind ?_ ?_⟩
    · rw [split, inner]
      simp
    · rw [List.reverse_append, wordAt_append_of_stop leftStop]
    · rw [wordAt_append_of_stop rightStop]
  · rintro ⟨front, u, rest, inner, reads⟩
    obtain ⟨front, rest, rfl, rfl, within⟩ := (h.ends reads).of_collapse.within spaces spaces'
      (split.symm.trans inner)
    refine ⟨front, u, rest, within, reads.of_wordAt h.blind ?_ ?_⟩
    · rw [List.reverse_append, wordAt_append_of_stop leftStop]
    · rw [wordAt_append_of_stop rightStop]

end Parts

section Fixed
variable [UnicodePlatform]

theorem countP_collapse {f : Char → Bool} (solid : ∀ c, Platform.isSpace c = true → f c = false)
    (text : Str) : (collapse text).countP f = text.countP f := by
  have blank : f ' ' = false := solid ' ' (Platform.isSpace_ascii ' ' (by decide))
  have h := collapses text
  generalize collapse text = result at h
  induction h with
  | nil => rfl
  | solid here next ih => rw [List.countP_cons, List.countP_cons, ih]
  | @gap c text result space next ih =>
    have dropped : (text.takeWhile Platform.isSpace).countP f = 0 :=
      List.countP_eq_zero.mpr fun x hx => by simp [solid x (List.mem_takeWhile_imp hx)]
    have whole := congrArg (List.countP f)
      (List.takeWhile_append_dropWhile (p := Platform.isSpace) (l := text))
    rw [List.countP_append, dropped] at whole
    rw [List.countP_cons_of_neg (by simp [blank]), List.countP_cons_of_neg (by simp [solid c space]),
      ih]
    omega

theorem countP_strip {f : Char → Bool} (solid : ∀ c, Platform.isSpace c = true → f c = false)
    (text : Str) : (strip text).countP f = text.countP f := by
  obtain ⟨front, rest, split, spaces, spaces'⟩ := strip_split text
  have none {gap : Str} (spaces : ∀ c ∈ gap, Platform.isSpace c = true) : gap.countP f = 0 :=
    List.countP_eq_zero.mpr fun x hx => by simp [solid x (spaces x hx)]
  conv_rhs => rw [split]
  rw [List.countP_append, List.countP_append, none spaces, none spaces', Nat.zero_add, Nat.add_zero]

theorem strip_strip (text : Str) : strip (strip text) = strip text := by
  by_cases none : strip text = []
  · rw [none]
    rfl
  · have whole := (strip_solidEnds none).strip_append [] []
    simpa using whole

omit [UnicodePlatform] in
theorem maskingRules_some : ∀ rule ∈ maskingRules, 0 < rule.1.least := by
  simp only [maskingRules, substitutions, List.take_succ_cons, List.take_zero,
    List.forall_mem_cons, List.not_mem_nil, false_implies, implies_true, and_true]
  decide

/-- Every masking rule that finds something adds a bracket. -/
theorem maskingRules_grow : ∀ rule ∈ maskingRules, ∀ text : Str,
    (¬ Occurs CharClass.test isWord rule.1 text ∧ reSub rule.1 rule.2 text = text) ∨
      text.countP (· = '<') < (reSub rule.1 rule.2 text).countP (· = '<') := by
  have clear : ∀ rule ∈ maskingRules, ∀ k ∈ rule.1.classes, k.avoids '<' = true := by
    simp only [maskingRules, substitutions, List.take_succ_cons, List.take_zero,
      List.forall_mem_cons, List.not_mem_nil, false_implies, implies_true, and_true]
    decide
  have placed : ∀ rule ∈ maskingRules, ∀ d, 0 < (rule.2 d).countP (· = '<') := by
    have labelled (w : String) (some : 0 < w.toList.countP (· = '<')) (d : Cursor Char) :
        0 < (d.groupText 1 ++ w.toList).countP (· = '<') := by
      rw [List.countP_append]
      omega
    simp only [maskingRules, substitutions, List.take_succ_cons, List.take_zero,
      List.forall_mem_cons, List.not_mem_nil, false_implies, implies_true, and_true]
    have fixed (w : String) (some : 0 < w.toList.countP (· = '<')) (d : Cursor Char) :
        0 < (fixedText w d).countP (· = '<') := some
    exact ⟨fixed _ (by decide), fixed _ (by decide), fixed _ (by decide), fixed _ (by decide),
      fixed _ (by decide), fixed _ (by decide), labelled _ (by decide), labelled _ (by decide),
      fixed _ (by decide), fixed _ (by decide)⟩
  intro rule hr text
  refine sub_grows (maskingRules_some rule hr) ?_ (placed rule hr) text
  intro k hk x passes
  refine decide_eq_false fun same => ?_
  subst same
  rw [CharClass.test_of_avoids (by decide) (clear rule hr k hk)] at passes
  cases passes

theorem foldl_grows (rules : List (Pattern CharClass × (Cursor Char → Str)))
    (masking : ∀ rule ∈ rules, rule ∈ maskingRules) (text : Str) :
    ((∀ rule ∈ rules, ¬ Occurs CharClass.test isWord rule.1 text) ∧
      rules.foldl (fun normalized s => reSub s.1 s.2 normalized) text = text) ∨
    text.countP (· = '<') <
      (rules.foldl (fun normalized s => reSub s.1 s.2 normalized) text).countP (· = '<') := by
  induction rules generalizing text with
  | nil => exact .inl ⟨by simp, rfl⟩
  | cons rule rules ih =>
    rw [List.forall_mem_cons] at masking
    have later := ih masking.2 (reSub rule.1 rule.2 text)
    rw [List.foldl_cons]
    rcases maskingRules_grow rule masking.1 text with ⟨absent, same⟩ | more
    · rw [same] at later ⊢
      exact later.imp_left fun ⟨unread, same⟩ => ⟨List.forall_mem_cons.mpr ⟨absent, unread⟩, same⟩
    · rcases later with ⟨-, same⟩ | evenMore
      · exact .inr (by rwa [same])
      · exact .inr (more.trans evenMore)

omit [UnicodePlatform] in
theorem foldl_unread [Platform] (rules : List (Pattern CharClass × (Cursor Char → Str))) {text : Str}
    (unread : ∀ rule ∈ rules, reSub rule.1 rule.2 text = text) :
    rules.foldl (fun normalized s => reSub s.1 s.2 normalized) text = text := by
  induction rules with
  | nil => rfl
  | cons rule rules ih =>
    rw [List.forall_mem_cons] at unread
    rw [List.foldl_cons, unread.1, ih unread.2]

/-- A normal form is normalised to itself when no masking rule finds anything in it. -/
theorem normalizeMessage_fixed_iff (message : Str) :
    normalizeMessage (normalizeMessage message) = normalizeMessage message ↔
      ∀ rule ∈ maskingRules, ¬ Occurs CharClass.test isWord rule.1 (normalizeMessage message) := by
  have form (message : Str) : normalizeMessage message = collapse (strip (masked message)) :=
    (normalizeMessage_eq message).trans (strip_collapse _)
  have stripped : strip (normalizeMessage message) = normalizeMessage message := by
    rw [normalizeMessage_eq, strip_strip]
  have collapsed : collapse (normalizeMessage message) = normalizeMessage message := by
    rw [form]
    exact (collapses _).idem.collapse_eq
  have solid (c : Char) (space : Platform.isSpace c = true) : decide (c = '<') = false := by
    refine decide_eq_false fun same => ?_
    rw [same, Platform.isSpace_ascii '<' (by decide)] at space
    cases space
  constructor
  · intro same
    rcases foldl_grows maskingRules (fun _ hr => hr) (normalizeMessage message) with
      ⟨absent, -⟩ | more
    · exact absent
    · have counts := congrArg (List.countP (· = '<')) same
      rw [form (normalizeMessage message), countP_collapse solid, countP_strip solid, masked,
        stripped] at counts
      omega
  · intro absent
    have same : masked (normalizeMessage message) = normalizeMessage message := by
      rw [masked, stripped]
      refine foldl_unread maskingRules fun rule hr => ?_
      exact sub_eq_self (maskingRules_some rule hr) (absent rule hr)
    rw [form (normalizeMessage message), same, stripped, collapsed]

end Fixed

section Labelled
variable [UnicodePlatform]

/-- The two rules that keep a label. -/
def labelPatterns : List (Pattern CharClass) := [Patterns.requestId, Patterns.labelNumber]

/-- The text that `_REQUEST_ID_RE` is given: the message with its values masked, up to the
hexadecimal runs and the numbers. -/
def valuesMasked (message : Str) : Str :=
  (maskingRules.take 6).foldl (fun normalized s => reSub s.1 s.2 normalized) (strip message)

/-- A label with its placeholder, where `_REQUEST_ID_RE` reads the colon as another id. -/
def Labelled (text : Str) : Prop :=
  ∃ front label rest, text = front ++ (label ++ ':' :: '<' :: rest) ∧
    label.map foldCase ∈ requestLabels ∧ wordAt isWord front.reverse = false

theorem labelled_requestId {text : Str}
    (occurs : Occurs CharClass.test isWord Patterns.requestId text) :
    Labelled (reSub Patterns.requestId (fun m => m.groupText 1 ++ ":<request_id>".toList) text) := by
  rcases @subFrom_first_hit _ _ CharClass.test isWord Patterns.requestId (by decide)
    (fun m => m.groupText 1 ++ ":<request_id>".toList) [] text with
    unfound | ⟨front, rest, d, rfl, hit, result⟩
  · obtain ⟨front, u, rest, rfl, reads⟩ := occurs
    exact absurd (by simpa using reads)
      (first_eq_none_iff.mp (unfound front (u ++ rest) rfl) u rest rfl)
  · obtain ⟨seps, id, -, here⟩ := requestIdAt_of_first hit
    have start := here.start
    rw [List.append_nil] at start
    refine ⟨front, d.groupText 1, "request_id>".toList ++ subFrom CharClass.test isWord
      Patterns.requestId (fun m => m.groupText 1 ++ ":<request_id>".toList) 0 d.before d.after, ?_,
      here.label, start⟩
    rw [reSub, sub, result]
    simp

/-- A rule that reads no bracket leaves a label with its placeholder. -/
theorem labelled_keep {p : Pattern CharClass} {replacement : Cursor Char → Str}
    (groups : OfGroups replacement) (blind : ∀ k ∈ p.lookbehind, k.wordClass = true)
    (closed : ∀ k ∈ p.classes, k.avoids '<' = true)
    (splits : ∀ (front label : Str) (y : Char), isWord y = false →
      label.map foldCase ∈ requestLabels →
      reSub p replacement (front ++ y :: (label ++ [':'])) =
        reSub p replacement front ++ y :: (label ++ [':']))
    (leaves : ∀ label : Str, label.map foldCase ∈ requestLabels →
      reSub p replacement (label ++ [':']) = label ++ [':'])
    {text : Str} (labelled : Labelled text) : Labelled (reSub p replacement text) := by
  obtain ⟨front, label, rest, rfl, named, start⟩ := labelled
  have bracket : IsBracket '<' := .inl rfl
  have blindBracket : ∀ k ∈ p.lookbehind, k.test '<' = false := fun k hk =>
    Bool.eq_false_iff.mpr fun passes => by
      have word := CharClass.isWord_of_test (blind k hk) passes
      rw [isWord_bracket bracket] at word
      cases word
  have parts : reSub p replacement (front ++ (label ++ [':']) ++ '<' :: rest) =
      reSub p replacement (front ++ (label ++ [':'])) ++ '<' :: reSub p replacement rest :=
    sub_barrier groups (isWord_bracket bracket) blindBracket
      fun k hk => CharClass.test_of_avoids (by decide) (closed k hk)
  have whole : front ++ (label ++ ':' :: '<' :: rest) =
      front ++ (label ++ [':']) ++ '<' :: rest := by simp
  rw [whole, parts]
  rcases List.eq_nil_or_concat' front with rfl | ⟨front, y, rfl⟩
  · exact ⟨[], label, reSub p replacement rest, by simp [leaves label named], named, rfl⟩
  · have outside : isWord y = false := by simpa [wordAt] using start
    have front_eq : front ++ [y] ++ (label ++ [':']) = front ++ y :: (label ++ [':']) := by simp
    rw [front_eq, splits front label y outside named]
    refine ⟨reSub p replacement front ++ [y], label, reSub p replacement rest, by simp, named, ?_⟩
    simpa [wordAt] using outside

omit [UnicodePlatform] in
theorem requestLabel_char {label : Str} (named : label.map foldCase ∈ requestLabels) :
    ∀ c ∈ label, c = ' ' ∨ c = '-' ∨ foldCase c ∈ labelChars := by
  have written : ∀ l ∈ requestLabels, ∀ c ∈ l, c = ' ' ∨ c = '-' ∨ c ∈ labelChars := by decide
  intro c hc
  have same {x : Char} (sign : x.toUpper = x ∧ caseFolds x = []) (fold : foldCase c = x) :
      c = x := by
    rcases foldCase_cases fold with same | ⟨upper, -⟩ | folds
    · exact same
    · rw [upper, sign.1]
    · rw [sign.2] at folds
      cases folds
  rcases written _ named _ (List.mem_map_of_mem hc) with blank | dash | letter
  · exact .inl (same (by decide) blank)
  · exact .inr (.inl (same (by decide) dash))
  · exact .inr (.inr letter)

theorem isDecimal_of_foldCase {c : Char} (written : foldCase c ∈ labelChars) :
    Platform.isDecimal c = false := by
  have plain : ∀ c ∈ labelChars, (IsAscii c ∧ c.isDigit = false) ∧
      IsAscii c.toUpper ∧ c.toUpper.isDigit = false := by decide
  have folds : ∀ c ∈ labelChars, ∀ x ∈ caseFolds c, x ∈ foldedLetters := by decide
  have own := plain _ written
  rcases foldCase_cases (x := c) rfl with same | ⟨same, -⟩ | folded
  · rw [same, Platform.isDecimal_ascii _ own.1.1, own.1.2]
  · rw [same, Platform.isDecimal_ascii _ own.2.1, own.2.2]
  · exact UnicodePlatform.isDecimal_folded c (folds _ written c folded)

theorem requestLabel_decimal {label : Str} (named : label.map foldCase ∈ requestLabels) :
    ∀ c ∈ label ++ [':'], Platform.isDecimal c = false := by
  have sign {c : Char} (ascii : IsAscii c ∧ c.isDigit = false) : Platform.isDecimal c = false := by
    rw [Platform.isDecimal_ascii c ascii.1, ascii.2]
  intro c hc
  rw [List.mem_append, List.mem_singleton] at hc
  rcases hc with within | rfl
  · rcases requestLabel_char named c within with rfl | rfl | letter
    · exact sign (by decide)
    · exact sign (by decide)
    · exact isDecimal_of_foldCase letter
  · exact sign (by decide)

theorem labelled_labelNumber {text : Str} (labelled : Labelled text) :
    Labelled (reSub Patterns.labelNumber (fun m => m.groupText 1 ++ "=<id>".toList) text) := by
  have none : Patterns.labelNumber.lookbehind = [] := rfl
  have groups : OfGroups fun m : Cursor Char => m.groupText 1 ++ "=<id>".toList := by
    intro d e same
    simp only [Cursor.groupText, same]
  have leaves (label : Str) (named : label.map foldCase ∈ requestLabels) :
      reSub Patterns.labelNumber (fun m => m.groupText 1 ++ "=<id>".toList) (label ++ [':']) =
        label ++ [':'] := by
    refine sub_eq_self (by decide) ?_
    rintro ⟨front, u, rest, split, reads⟩
    obtain ⟨name, seps, digits, rfl, here⟩ := reads_labelNumber.mp reads
    obtain ⟨d, digits, rfl⟩ := List.exists_cons_of_ne_nil here.some
    have plain := requestLabel_decimal named d (by simp [split])
    rw [here.digits d List.mem_cons_self] at plain
    cases plain
  refine labelled_keep groups (by simp [none]) (by decide) ?_ leaves labelled
  intro front label y outside named
  have parts : reSub Patterns.labelNumber (fun m => m.groupText 1 ++ "=<id>".toList)
      (front ++ y :: (label ++ [':'])) =
        reSub Patterns.labelNumber (fun m => m.groupText 1 ++ "=<id>".toList) front ++
          y :: reSub Patterns.labelNumber (fun m => m.groupText 1 ++ "=<id>".toList)
            (label ++ [':']) := by
    -- the last digit of a match is neither the character before the label nor in the label
    refine sub_split groups outside (by simp [none]) fun f rest z after _ v_eq reads => ?_
    obtain ⟨name, seps, digits, u_eq, here⟩ := reads_labelNumber.mp reads
    obtain ⟨digits, e, rfl⟩ := (List.eq_nil_or_concat' digits).resolve_left here.some
    have decimal := here.digits e (by simp)
    have last := congrArg List.getLast? u_eq
    have within : e ∈ y :: z := by
      refine List.mem_of_getLast? ?_
      rw [List.getLast?_append_of_ne_nil _ (List.cons_ne_nil y z)] at last
      rw [last]
      simp
    rcases List.mem_cons.mp within with rfl | inside
    · rw [isWord, UnicodePlatform.isAlnum_of_isDecimal e decimal] at outside
      cases outside
    · have plain := requestLabel_decimal named e (by rw [v_eq]; simp [inside])
      rw [decimal] at plain
      cases plain
  exact parts.trans (congrArg _ (congrArg _ (leaves label named)))

/-- A rule of words leaves a label alone. -/
theorem labelled_value {p : Pattern CharClass} {w : String} (some : 0 < p.least)
    (words : ∀ k ∈ p.classes ++ p.lookbehind, k.wordClass = true)
    (closed : ∀ k ∈ p.classes, k.avoids '<' = true)
    (leaves : ∀ label : Str, label.map foldCase ∈ requestLabels →
      ¬ Occurs CharClass.test isWord p (label ++ [':']))
    {text : Str} (labelled : Labelled text) : Labelled (reSub p (fixedText w) text) := by
  have outside {y : Char} (plain : isWord y = false) {k : CharClass} (hk : k.wordClass = true) :
      k.test y = false := Bool.eq_false_iff.mpr fun passes => by
    rw [CharClass.isWord_of_test hk passes] at plain
    cases plain
  refine labelled_keep (fun _ _ _ => rfl) (fun k hk => words k (List.mem_append_right _ hk)) closed
    ?_ (fun label named => sub_eq_self some (leaves label named)) labelled
  intro front label y plain named
  have parts : reSub p (fixedText w) (front ++ y :: (label ++ [':'])) =
      reSub p (fixedText w) front ++ y :: reSub p (fixedText w) (label ++ [':']) :=
    sub_barrier (fun _ _ _ => rfl) plain
      (fun k hk => outside plain (words k (List.mem_append_right _ hk)))
      (fun k hk => outside plain (words k (List.mem_append_left _ hk)))
  exact parts.trans (congrArg _ (congrArg _ (sub_eq_self some (leaves label named))))

/-- What `_REQUEST_ID_RE` has replaced is still there when the values are masked. -/
theorem labelled_masked {message : Str}
    (occurs : Occurs CharClass.test isWord Patterns.requestId (valuesMasked message)) :
    Labelled (masked message) := by
  have short (label : Str) (named : label.map foldCase ∈ requestLabels) : label.length ≤ 10 := by
    have table : ∀ l ∈ requestLabels, l.length ≤ 10 := by decide
    simpa using table _ named
  refine labelled_value (w := "<number>") (p := Patterns.longNumber) (by decide) (by decide)
    (by decide) ?_ (labelled_value (w := "<hex>") (p := Patterns.hexRun) (by decide) (by decide)
      (by decide) ?_ (labelled_labelNumber (labelled_requestId occurs)))
  · rintro label named ⟨front, u, rest, split, reads⟩
    obtain ⟨x, hx, decimal⟩ := reads.required .decimal List.mem_cons_self
    have plain := requestLabel_decimal named x (by simp [split, hx])
    rw [show Platform.isDecimal x = true from decimal] at plain
    cases plain
  · rintro label named ⟨front, u, rest, split, reads⟩
    have least : 12 ≤ u.length := reads.least_le
    have lengths := congrArg List.length split
    have bound := short label named
    simp only [List.length_append, List.length_singleton] at lengths
    omega

/-- A label has no white space, or one space before its `id`. -/
theorem requestLabel_spaces {label : Str} (named : label.map foldCase ∈ requestLabels) :
    (∀ c ∈ label, Platform.isSpace c = false) ∨
      ∃ front rest, label = front ++ ' ' :: rest ∧ front ≠ [] ∧ rest.map foldCase = "id".toList ∧
        (∀ c ∈ front, Platform.isSpace c = false) ∧ ∀ c ∈ rest, Platform.isSpace c = false := by
  have solid {c : Char} (hc : c = '-' ∨ foldCase c ∈ labelChars) : Platform.isSpace c = false := by
    rcases hc with rfl | letter
    · exact Platform.isSpace_ascii '-' (by decide)
    · exact not_isSpace_of_isWord (isWord_of_foldCase letter)
  have words : ∀ l ∈ requestLabels, ' ' ∉ l ∨ l = l.take (l.length - 3) ++ ' ' :: "id".toList ∧
      ' ' ∉ l.take (l.length - 3) ∧ l.take (l.length - 3) ≠ [] := by decide
  have part {text : Str} (within : ∀ c ∈ text, c ∈ label) (blank : ' ' ∉ text.map foldCase) :
      ∀ c ∈ text, Platform.isSpace c = false := by
    intro c hc
    refine solid ((requestLabel_char named c (within c hc)).resolve_left ?_)
    rintro rfl
    exact blank (List.mem_map.mpr ⟨' ', hc, rfl⟩)
  rcases words _ named with blank | ⟨split, blank, some⟩
  · exact .inl (part (fun _ hc => hc) blank)
  · rw [List.map_eq_append_iff] at split
    obtain ⟨front, rest, rfl, front_eq, rest_eq⟩ := split
    obtain ⟨x, rest, rfl, fold, id_eq⟩ := List.map_eq_cons_iff.mp rest_eq
    have space : x = ' ' := by
      rcases requestLabel_char named x (by simp) with same | rfl | letter
      · exact same
      · exact absurd fold (by decide)
      · rw [fold] at letter
        exact absurd letter (by decide)
    subst space
    refine .inr ⟨front, rest, rfl, ?_, id_eq,
      part (fun c hc => List.mem_append_left _ hc) (by rwa [front_eq]),
      part (fun c hc => by simp [hc]) (by rw [id_eq]; decide)⟩
    rintro rfl
    exact some front_eq.symm

theorem collapse_label {label : Str} (named : label.map foldCase ∈ requestLabels) (text : Str) :
    collapse (label ++ text) = label ++ collapse text := by
  rcases requestLabel_spaces named with solid | ⟨front, rest, rfl, -, id_eq, solid, solid'⟩
  · exact collapse_solid solid text
  · have stops : ∀ c ∈ (rest ++ text).head?, Platform.isSpace c = false := by
      intro c hc
      cases rest with
      | nil => cases id_eq
      | cons x rest =>
        obtain rfl : x = c := Option.some.inj hc
        exact solid' x List.mem_cons_self
    rw [List.append_assoc, collapse_solid solid, List.cons_append, collapse_gap isSpace_blank,
      dropWhile_stops stops, collapse_solid solid', List.append_assoc, List.cons_append]

theorem Labelled.looseOccurs {text : Str} (labelled : Labelled text) :
    LooseOccurs Patterns.requestId text := by
  obtain ⟨front, label, rest, rfl, named, start⟩ := labelled
  refine ⟨front, label ++ [':'], '<' :: rest, by simp, ?_⟩
  have colon : collapse [':'] = [':'] := @collapse_append _ [] [] ':'
    (Platform.isSpace_ascii ':' (by decide))
  rw [collapse_label named, colon]
  refine reads_requestId.mpr ⟨label, [], [':'], rfl, named, start, isWord_mark (by simp),
    by simp, by simp, ?_⟩
  simp only [List.mem_singleton, forall_eq]
  rw [test_ascii _ asciiPlatform _ _ (by decide)]
  decide

end Labelled

section Idempotent
variable [UnicodePlatform]

/-- With no request id to mask, the value patterns are masked completely. -/
theorem not_found_of_unread {message : Str}
    (unread : ¬ Occurs CharClass.test isWord Patterns.requestId (valuesMasked message)) :
    ∀ p ∈ valuePatterns, ¬ Found isWord (Spelled p) (masked message) := by
  have others : masked message =
      otherRules.foldl (fun normalized s => reSub s.1 s.2 normalized) (strip message) := by
    have same : reSub Patterns.requestId (fun m => m.groupText 1 ++ ":<request_id>".toList)
        (valuesMasked message) = valuesMasked message := sub_eq_self (by decide) unread
    have seven : masked message = (maskingRules.drop 7).foldl
        (fun normalized s => reSub s.1 s.2 normalized)
        (reSub Patterns.requestId (fun m => m.groupText 1 ++ ":<request_id>".toList)
          (valuesMasked message)) := rfl
    rw [seven, same, otherRules, List.foldl_append]
    rfl
  have own : ∀ p ∈ valuePatterns, ∃ rulesBefore w rulesAfter, w ∈ placeholders ∧
      otherRules = rulesBefore ++ (p, fixedText w) :: rulesAfter := by
    simp only [valuePatterns, List.forall_mem_cons, List.not_mem_nil, false_implies, implies_true,
      and_true]
    exact ⟨⟨otherRules.take 0, "<uuid>", _, by decide, rfl⟩,
      ⟨otherRules.take 1, "<timestamp>", _, by decide, rfl⟩,
      ⟨otherRules.take 2, "<date>", _, by decide, rfl⟩,
      ⟨otherRules.take 3, "<email>", _, by decide, rfl⟩,
      ⟨otherRules.take 4, "<ip>", _, by decide, rfl⟩,
      ⟨otherRules.take 5, "<memory_address>", _, by decide, rfl⟩,
      ⟨otherRules.take 7, "<hex>", _, by decide, rfl⟩,
      ⟨otherRules.take 8, "<number>", _, by decide, rfl⟩⟩
  intro p hp
  obtain ⟨rulesBefore, w, rulesAfter, hw, split⟩ := own p hp
  have value := valuePattern_all p hp
  rw [others, split, List.foldl_append, List.foldl_cons]
  refine not_found_rules value rulesAfter (P := fun _ => True) ?_ trivial (not_found_own value hw _)
  exact fun rule hr text _ => ⟨otherRules_mask text rule (by simp [split, hr]), trivial⟩

omit [UnicodePlatform] in
theorem solidPattern_label : ∀ p ∈ labelPatterns, SolidPattern p := by
  simp only [labelPatterns, List.forall_mem_cons, List.not_mem_nil, false_implies, implies_true,
    and_true]
  exact ⟨⟨by decide, rfl, by decide, by decide⟩, ⟨by decide, rfl, by decide, by decide⟩⟩

/-- Normalising a message twice is normalising it once exactly when no request id was masked
and no label has come before its value as white space was collapsed. -/
theorem normalizeMessage_idem_iff (message : Str) :
    normalizeMessage (normalizeMessage message) = normalizeMessage message ↔
      ¬ Occurs CharClass.test isWord Patterns.requestId (valuesMasked message) ∧
        ∀ p ∈ labelPatterns, ¬ LooseOccurs p (masked message) := by
  have loose (p : Pattern CharClass) (hp : p ∈ labelPatterns) :
      Occurs CharClass.test isWord p (normalizeMessage message) ↔
        LooseOccurs p (masked message) := by
    have ends := solidPattern_label p hp
    have form : normalizeMessage message = collapse (strip (masked message)) :=
      (normalizeMessage_eq message).trans (strip_collapse _)
    rw [form, ends.occurs_collapse, ends.looseOccurs_strip]
  rw [normalizeMessage_fixed_iff]
  constructor
  · intro absent
    have ruled : ∀ p ∈ labelPatterns, ∃ rule ∈ maskingRules, rule.1 = p := by
      simp [labelPatterns, maskingRules, substitutions]
    have apart (p : Pattern CharClass) (hp : p ∈ labelPatterns) :
        ¬ LooseOccurs p (masked message) := by
      obtain ⟨rule, hr, rfl⟩ := ruled p hp
      exact fun occurs => absent rule hr ((loose rule.1 hp).mpr occurs)
    exact ⟨fun occurs => apart _ (by simp [labelPatterns]) (labelled_masked occurs).looseOccurs,
      apart⟩
  · rintro ⟨unread, apart⟩ rule hr occurs
    have kinds : ∀ rule ∈ maskingRules, rule.1 ∈ labelPatterns ∨ rule.1 ∈ valuePatterns := by
      simp [labelPatterns, valuePatterns, maskingRules, substitutions]
    rcases kinds rule hr with label | value
    · exact apart rule.1 label ((loose rule.1 label).mp occurs)
    · obtain ⟨front, u, rest, split, reads⟩ := occurs
      exact not_found_normalizeMessage (not_found_of_unread unread) value
        ⟨front, u, rest, split, ⟨_, _, reads⟩, (valuePattern_all rule.1 value).stands reads⟩

end Idempotent

/-- A masked request id is read as a request id again. -/
theorem normalizeMessage_idem_fails : letI := foldingPlatform
    ¬ ∀ message : Str, normalizeMessage (normalizeMessage message) = normalizeMessage message := by
  intro idem
  exact absurd (idem "req-id=7".toList) (by decide)

end LogLens
