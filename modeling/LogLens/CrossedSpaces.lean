import LogLens.WhitespaceStyle

/-! A match that holds a space of the message makes its normal form another one than that of
the message with tabs for spaces: no pattern reads a tab. -/

namespace LogLens
open BacktrackingRegex

section Tabs
variable [UnicodePlatform] {rule : Pattern CharClass × (Cursor Char → Str)}
  {rules : List (Pattern CharClass × (Cursor Char → Str))}

theorem StyledRule.reSub_tab (h : StyledRule rule) {c : Char} (space : Platform.isSpace c = true)
    (other : c ≠ ' ') (u v : Str) :
    reSub rule.1 rule.2 (u ++ c :: v) = reSub rule.1 rule.2 u ++ c :: reSub rule.1 rule.2 v := by
  have unread (k : CharClass) (hk : k ∈ rule.1.classes ++ rule.1.lookbehind) : k.test c = false :=
    Bool.eq_false_iff.mpr fun passes =>
      other (CharClass.eq_space_of_plain (h.plain k hk) passes space)
  exact sub_barrier h.groups (isWord_of_isSpace space)
    (fun k hk => unread k (List.mem_append_right _ hk))
    (fun k hk => unread k (List.mem_append_left _ hk))

theorem runRules_tab (styled : ∀ rule ∈ rules, StyledRule rule) {c : Char}
    (space : Platform.isSpace c = true) (other : c ≠ ' ') (u v : Str) :
    runRules rules (u ++ c :: v) = runRules rules u ++ c :: runRules rules v := by
  induction rules generalizing u v with
  | nil => rfl
  | cons rule rules ih =>
    rw [List.forall_mem_cons] at styled
    have here := styled.1.reSub_tab space other u v
    have next := ih styled.2 (reSub rule.1 rule.2 u) (reSub rule.1 rule.2 v)
    rwa [← here] at next

theorem StyledRule.subFrom_solid (h : StyledRule rule) (before : Str) {text : Str}
    (solid : ∀ c ∈ text, Platform.isSpace c = false) :
    (text ≠ [] → subFrom CharClass.test isWord rule.1 rule.2 0 before text ≠ []) ∧
      ∀ c ∈ subFrom CharClass.test isWord rule.1 rule.2 0 before text,
        Platform.isSpace c = false := by
  induction before, text using
    @scan_induction _ _ CharClass.test isWord rule.1 h.styled.some with
  | done => exact ⟨fun some => absurd rfl some, fun c hc => nomatch hc⟩
  | keep before x rest stuck ih =>
    rw [List.forall_mem_cons] at solid
    rw [subFrom_stuck _ stuck, List.forall_mem_cons]
    exact ⟨fun _ => List.cons_ne_nil _ _, solid.1, (ih solid.2).2⟩
  | hit before u d found behind ih =>
    rw [List.forall_mem_append] at solid
    obtain ⟨some, placed⟩ := h.places before u d found solid.1
    rw [subFrom_hit _ found (first_shorter h.styled.some found), List.forall_mem_append]
    exact ⟨fun _ none => some (List.append_eq_nil_iff.mp none).1, placed, (ih solid.2).2⟩

theorem runRules_solid (styled : ∀ rule ∈ rules, StyledRule rule) {text : Str} (some : text ≠ [])
    (solid : ∀ c ∈ text, Platform.isSpace c = false) :
    runRules rules text ≠ [] ∧ ∀ c ∈ runRules rules text, Platform.isSpace c = false := by
  induction rules generalizing text with
  | nil => exact ⟨some, solid⟩
  | cons rule rules ih =>
    rw [List.forall_mem_cons] at styled
    obtain ⟨some', solid'⟩ := styled.1.subFrom_solid [] solid
    exact ih styled.2 (some' some) solid'

theorem runRules_nil : runRules rules [] = [] := by
  induction rules with
  | nil => rfl
  | cons rule rules ih => exact ih

variable {words : List Str}

/-- Tokens with tabs between them are rewritten one by one. -/
theorem runRules_joinTabs (styled : ∀ rule ∈ rules, StyledRule rule) (words : List Str) :
    runRules rules (joinWith ['\t'] words) = joinWith ['\t'] (words.map (runRules rules)) := by
  have tab : Platform.isSpace '\t' = true := Platform.isSpace_ascii '\t' (by decide)
  induction words with
  | nil => exact runRules_nil
  | cons w words ih =>
    cases words with
    | nil => simp [joinWith]
    | cons v words =>
      rw [joinWith_cons_cons, List.singleton_append, runRules_tab styled tab (by decide), ih,
        List.map_cons, List.map_cons, List.map_cons, joinWith_cons_cons, List.singleton_append]

/-- Words that a text can be split into. -/
def Words (words : List Str) : Prop := ∀ w ∈ words, w ≠ [] ∧ ∀ c ∈ w, Platform.isSpace c = false

theorem Words.map_runRules (h : Words words) (styled : ∀ rule ∈ rules, StyledRule rule) :
    Words (words.map (runRules rules)) := by
  intro w hw
  obtain ⟨v, hv, rfl⟩ := List.mem_map.mp hw
  exact runRules_solid styled (h v hv).1 (h v hv).2

theorem Words.free (h : Words words) {c : Char} (space : Platform.isSpace c = true) :
    ∀ w ∈ words, c ∉ w := fun w hw inside => by
  have solid := (h w hw).2 c inside
  rw [space] at solid
  cases solid

theorem Words.solidEnds (h : Words words) (some : words ≠ []) (c : Char) :
    SolidEnds (joinWith [c] words) := by
  have own {w : Str} (word : w ≠ [] ∧ ∀ c ∈ w, Platform.isSpace c = false) : SolidEnds w :=
    ⟨word.1, fun x hx => word.2 x (List.mem_of_mem_head? hx),
      fun x hx => word.2 x (List.mem_of_getLast? hx)⟩
  induction words with
  | nil => exact absurd rfl some
  | cons w words ih =>
    have first := own (h w List.mem_cons_self)
    cases words with
    | nil =>
      rw [joinWith, List.intercalate_singleton]
      exact first
    | cons v words =>
      have rest := ih (fun w hw => h w (List.mem_cons_of_mem _ hw)) (List.cons_ne_nil _ _)
      obtain ⟨x, w, rfl⟩ := List.exists_cons_of_ne_nil first.some
      rw [joinWith_cons_cons]
      refine ⟨List.cons_ne_nil _ _, first.first, fun y hy => rest.last y ?_⟩
      rwa [List.getLast?_append_of_ne_nil _ (by simp), List.getLast?_append_of_ne_nil _ rest.some]
        at hy

theorem Words.strip_joinWith (h : Words words) (c : Char) :
    strip (joinWith [c] words) = joinWith [c] words := by
  by_cases none : words = []
  · rw [none]
    rfl
  · simpa using (h.solidEnds none c).strip_append [] []

theorem Words.collapse_joinTabs (h : Words words) :
    collapse (joinWith ['\t'] words) = joinWith [' '] words := by
  have tab : Platform.isSpace '\t' = true := Platform.isSpace_ascii '\t' (by decide)
  have single := collapse_strip (joinWith ['\t'] words)
  rwa [h.strip_joinWith, tokens_joinWith tab h] at single

/-- Tokens with spaces between them are rewritten one by one where no rule crosses a space. -/
theorem Words.runRules_joinSpaces (h : Words words) (styled : ∀ rule ∈ rules, StyledRule rule)
    (clear : crossed rules (joinWith [' '] words) = false) :
    runRules rules (joinWith [' '] words) = joinWith [' '] (words.map (runRules rules)) := by
  rw [← h.collapse_joinTabs] at clear ⊢
  rw [← collapse_runRules rules styled clear, runRules_joinTabs styled,
    (h.map_runRules styled).collapse_joinTabs]

theorem words_tokens (text : Str) : Words (tokens text) := fun _ => mem_tokens

end Tabs

section Spaces
variable [UnicodePlatform] {rule : Pattern CharClass × (Cursor Char → Str)}
  {rules : List (Pattern CharClass × (Cursor Char → Str))}

theorem countP_runRules_le (styled : ∀ rule ∈ rules, StyledRule rule) (text : Str) :
    (runRules rules text).countP Platform.isSpace ≤ text.countP Platform.isSpace := by
  induction rules generalizing text with
  | nil => exact le_rfl
  | cons rule rules ih =>
    rw [List.forall_mem_cons] at styled
    have here := styled.1.fewer.countP_le styled.1.styled.some [] text
    exact (ih styled.2 (reSub rule.1 rule.2 text)).trans here

/-- A rule that places no white space, whatever it reads. -/
def PlacesNoSpace (rule : Pattern CharClass × (Cursor Char → Str)) : Prop :=
  ∀ c d, first CharClass.test isWord rule.1 c = some d →
    (rule.2 d).countP Platform.isSpace = 0

theorem placesNoSpace_fixed {w : String} (hw : w ∈ placeholders) (p : Pattern CharClass) :
    PlacesNoSpace (p, fixedText w) := fun _ _ _ =>
  List.countP_eq_zero.mpr (by simpa [fixedText] using (fixedText_solid hw).2)

theorem numberLabel_solid {label : Str} (named : label.map foldCase ∈ numberLabels) :
    ∀ c ∈ label, Platform.isSpace c = false := by
  have letters : ∀ l ∈ numberLabels, ∀ x ∈ l, x ∈ labelChars := by decide
  exact fun c hc => not_isSpace_of_isWord
    (isWord_of_foldCase (letters _ named _ (List.mem_map_of_mem hc)))

/-- The rules but for the one that may keep a label with a space. -/
theorem others_placeNoSpace :
    ∀ rule ∈ maskingRules.take 6 ++ maskingRules.drop 7, PlacesNoSpace rule := by
  have labelNumber : PlacesNoSpace (Patterns.labelNumber, fun d : Cursor Char =>
      d.groupText 1 ++ "=<id>".toList) := by
    intro c d found
    obtain ⟨seps, digits, -, h⟩ := labelNumberAt_of_first found
    refine List.countP_eq_zero.mpr fun x hx => ?_
    rw [List.mem_append] at hx
    simpa using hx.elim (numberLabel_solid h.label x) ((fixedText_solid (by decide)).2 x)
  simp only [maskingRules, substitutions, List.take_succ_cons, List.take_zero,
    List.drop_succ_cons, List.drop_zero, List.cons_append, List.nil_append,
    List.forall_mem_cons, List.not_mem_nil, false_implies, implies_true, and_true]
  exact ⟨placesNoSpace_fixed (by decide) _, placesNoSpace_fixed (by decide) _,
    placesNoSpace_fixed (by decide) _, placesNoSpace_fixed (by decide) _,
    placesNoSpace_fixed (by decide) _, placesNoSpace_fixed (by decide) _, labelNumber,
    placesNoSpace_fixed (by decide) _, placesNoSpace_fixed (by decide) _⟩

/-- Rules that keep all white space of a text, and place none, do not cross it. -/
theorem crossed_eq_false (styled : ∀ rule ∈ rules, StyledRule rule)
    (places : ∀ rule ∈ rules, PlacesNoSpace rule) {text : Str}
    (kept : (runRules rules text).countP Platform.isSpace = text.countP Platform.isSpace) :
    crossed rules text = false := by
  induction rules generalizing text with
  | nil => rfl
  | cons rule rules ih =>
    rw [List.forall_mem_cons] at styled places
    have here := styled.1.fewer.countP_le styled.1.styled.some [] text
    have next := countP_runRules_le styled.2 (reSub rule.1 rule.2 text)
    change (runRules rules (reSub rule.1 rule.2 text)).countP _ = _ at kept
    change (reSub rule.1 rule.2 text).countP _ ≤ _ at here
    have cut := countP_subFrom_clear styled.1.styled.some places.1 [] text
    rw [crossed, Bool.or_eq_false_iff]
    refine ⟨(crosses_eq_false styled.1.styled.some).mpr ?_, ih styled.2 places.2 (by omega)⟩
    rw [ScanAvoids, ← cut]
    change (reSub rule.1 rule.2 text).countP _ = _
    omega

end Spaces

section Openings
variable [UnicodePlatform] {rule : Pattern CharClass × (Cursor Char → Str)}

/-- The text begins with `id:<r`. -/
def OpensId (text : Str) : Prop :=
  ∃ i d, foldCase i = 'i' ∧ foldCase d = 'd' ∧ [i, d, ':', '<', 'r'] <+: text

/-- What is placed begins with a bracket, but not with `<r`, or with the label of the match, but
not with `id:`. -/
def PlacesOther (rule : Pattern CharClass × (Cursor Char → Str)) : Prop :=
  ∀ c d, first CharClass.test isWord rule.1 c = some d →
    (∃ x out, rule.2 d = '<' :: x :: out ∧ x ≠ 'r') ∨
      wordAt isWord c.before = false ∧ ∃ l e x out, rule.2 d = l :: e :: x :: out ∧
        isWord l = true ∧ l ∈ c.after.head? ∧ (foldCase l = 'i' → x ≠ ':')

theorem subFrom_cons {p : Pattern CharClass} (some : 0 < p.least) {replacement : Cursor Char → Str}
    {before text out : Str} {y : Char}
    (same : subFrom CharClass.test isWord p replacement 0 before text = y :: out) :
    (∃ rest, text = y :: rest ∧
        subFrom CharClass.test isWord p replacement 0 (y :: before) rest = out) ∨
      ∃ d, first CharClass.test isWord p { before := before, after := text } = .some d ∧
        replacement d <+: y :: out := by
  cases found : first CharClass.test isWord p { before := before, after := text } with
  | some d =>
    rw [subFrom_hit _ found (first_shorter some found)] at same
    exact .inr ⟨d, rfl, _, same⟩
  | none =>
    cases text with
    | nil => cases same
    | cons x rest =>
      rw [subFrom_stuck _ found] at same
      obtain ⟨rfl, rest_eq⟩ := List.cons.inj same
      exact .inl ⟨rest, rfl, rest_eq⟩

theorem PlacesOther.opensId (h : PlacesOther rule) (some : 0 < rule.1.least) {text : Str}
    (opens : OpensId (reSub rule.1 rule.2 text)) : OpensId text := by
  obtain ⟨i, d, isI, isD, out, whole⟩ := opens
  have wordI : isWord i = true := isWord_of_foldCase (by rw [isI]; decide)
  have notWord {c : Char} (mark : c = ':' ∨ c = '<') : isWord c = false := by
    rcases mark with rfl | rfl
    · exact isWord_mark (by simp)
    · exact isWord_bracket (.inl rfl)
  have bracket {c : Char} (fold : foldCase c ≠ '<') : '<' ≠ c := by
    rintro rfl
    exact fold (by decide)
  have whole' : subFrom CharClass.test isWord rule.1 rule.2 0 [] text =
      i :: d :: ':' :: '<' :: 'r' :: out := whole.symm
  rcases subFrom_cons some whole' with ⟨rest, rfl, behindI⟩ | ⟨e, found, starts⟩
  swap
  -- a match at the `i` would place a label `id`
  · rcases h _ e found with ⟨x, out', placed, -⟩ | ⟨-, l, z, x, out', placed, -, -, other⟩
    · rw [placed, List.cons_prefix_cons] at starts
      exact absurd starts.1 (bracket (by rw [isI]; decide))
    · simp only [placed, List.cons_prefix_cons] at starts
      exact absurd starts.2.2.1 (other (by rw [starts.1, isI]))
  rcases subFrom_cons some behindI with ⟨rest, rfl, behindD⟩ | ⟨e, found, starts⟩
  swap
  -- no label begins behind the `i`
  · rcases h _ e found with ⟨x, out', placed, -⟩ | ⟨inside, -⟩
    · rw [placed, List.cons_prefix_cons] at starts
      exact absurd starts.1 (bracket (by rw [isD]; decide))
    · exact absurd (wordI.symm.trans inside) (by decide)
  rcases subFrom_cons some behindD with ⟨rest, rfl, behindMark⟩ | ⟨e, found, starts⟩
  swap
  · rcases h _ e found with ⟨x, out', placed, -⟩ | ⟨-, l, z, x, out', placed, word, -⟩
    · simp [placed] at starts
    · simp only [placed, List.cons_prefix_cons] at starts
      rw [starts.1, notWord (.inl rfl)] at word
      cases word
  rcases subFrom_cons some behindMark with ⟨rest, rfl, behindBracket⟩ | ⟨e, found, starts⟩
  swap
  · rcases h _ e found with ⟨x, out', placed, other⟩ | ⟨-, l, z, x, out', placed, word, -⟩
    · simp only [placed, List.cons_prefix_cons] at starts
      exact absurd starts.2.1 other
    · simp only [placed, List.cons_prefix_cons] at starts
      rw [starts.1, notWord (.inr rfl)] at word
      cases word
  refine ⟨i, d, isI, isD, ?_⟩
  rcases subFrom_cons some behindBracket with ⟨rest, rfl, -⟩ | ⟨e, found, starts⟩
  · exact ⟨rest, rfl⟩
  · rcases h _ e found with ⟨x, out', placed, -⟩ | ⟨-, l, z, x, out', placed, -, here, -⟩
    · simp [placed] at starts
    · simp only [placed, List.cons_prefix_cons] at starts
      obtain ⟨rest', rfl⟩ := List.head?_eq_some_iff.mp here
      rw [starts.1]
      exact ⟨rest', rfl⟩

/-- The rules from `_REQUEST_ID_RE` on. -/
def labelRules : List (Pattern CharClass × (Cursor Char → Str)) := maskingRules.drop 6

theorem labelRules_styled : ∀ rule ∈ labelRules, StyledRule rule := fun rule hr =>
  maskingRules_styled rule (List.mem_of_mem_drop hr)

theorem placesOther_label {p : Pattern CharClass} {w : Str} (some : w ≠ [])
    (labelled : ∀ {c d : Cursor Char}, first CharClass.test isWord p c = .some d →
      wordAt isWord c.before = false ∧ ∃ l e label, d.groupText 1 = l :: e :: label ∧
        isWord l = true ∧ l ∈ c.after.head? ∧
        (foldCase l = 'i' → ∀ x ∈ (label ++ w).head?, x ≠ ':')) :
    PlacesOther (p, fun d => d.groupText 1 ++ w) := by
  intro c d found
  obtain ⟨start, l, e, label, named, word, here, other⟩ := labelled found
  have behind := List.append_ne_nil_of_right_ne_nil label some
  obtain ⟨x, out, rest⟩ := List.exists_cons_of_ne_nil behind
  rw [rest] at other
  refine .inr ⟨start, l, e, x, out, ?_, word, here, fun isI => other isI x rfl⟩
  dsimp only
  rw [named, List.cons_append, List.cons_append, rest]

theorem label_head {labels : List Str} (long : ∀ l ∈ labels, 2 ≤ l.length)
    (letters : ∀ l ∈ labels, l.head?.all (· ∈ labelChars) = true) {label text : Str}
    (named : label.map foldCase ∈ labels) : ∃ l e rest, label = l :: e :: rest ∧
      isWord l = true ∧ l ∈ (label ++ text).head? := by
  have size := long _ named
  rw [List.length_map] at size
  match label, size with
  | l :: e :: rest, _ =>
    have letter := letters _ named
    rw [List.map_cons, List.head?_cons, Option.all_some, decide_eq_true_eq] at letter
    exact ⟨l, e, rest, rfl, isWord_of_foldCase letter, rfl⟩

theorem labelRules_placeOther : ∀ rule ∈ labelRules, PlacesOther rule := by
  have fixed {p : Pattern CharClass} {w : String} {x : Char} {out : Str}
      (same : w.toList = '<' :: x :: out) (other : x ≠ 'r') : PlacesOther (p, fixedText w) :=
    fun _ _ _ => .inl ⟨x, out, same, other⟩
  simp only [labelRules, maskingRules, substitutions, List.take_succ_cons, List.take_zero,
    List.drop_succ_cons, List.drop_zero, List.forall_mem_cons, List.not_mem_nil, false_implies,
    implies_true, and_true]
  refine ⟨placesOther_label (by decide) fun found => ?_,
    placesOther_label (by decide) fun found => ?_, fixed rfl (by decide), fixed rfl (by decide)⟩
  · obtain ⟨seps, id, split, h⟩ := requestIdAt_of_first found
    obtain ⟨l, e, rest, label_eq, word, here⟩ := label_head (by decide) (by decide) h.label
    refine ⟨h.start, l, e, rest, label_eq, word, by rwa [split], fun isI => ?_⟩
    have named := h.label
    have starts : ∀ label ∈ requestLabels, 'i' ∉ label.head? := by decide
    exact absurd (by simp [label_eq, isI]) (starts _ named)
  · obtain ⟨seps, digits, split, h⟩ := labelNumberAt_of_first found
    obtain ⟨l, e, rest, label_eq, word, here⟩ := label_head (by decide) (by decide) h.label
    refine ⟨h.start, l, e, rest, label_eq, word, by rwa [split], fun isI => ?_⟩
    have named := h.label
    have starts : ∀ label ∈ numberLabels, 'i' ∈ label.head? → label.length = 2 := by decide
    have size := starts _ named (by simp [label_eq, isI])
    obtain rfl : rest = [] := by simpa [label_eq] using size
    simp

theorem opensId_of_labelRules {text : Str} (opens : OpensId (runRules labelRules text)) :
    OpensId text := by
  have each : ∀ rules : List (Pattern CharClass × (Cursor Char → Str)),
      (∀ rule ∈ rules, StyledRule rule) → (∀ rule ∈ rules, PlacesOther rule) → ∀ text : Str,
      OpensId (runRules rules text) → OpensId text := by
    intro rules
    induction rules with
    | nil => exact fun _ _ _ opens => opens
    | cons rule rules ih =>
      intro styled other text opens
      rw [List.forall_mem_cons] at styled other
      exact other.1.opensId styled.1.styled.some (ih styled.2 other.2 _ opens)
  exact each labelRules labelRules_styled labelRules_placeOther text opens

end Openings

section Placeholders
variable [UnicodePlatform] {rules : List (Pattern CharClass × (Cursor Char → Str))}

theorem runRules_bracket (styled : ∀ rule ∈ rules, StyledRule rule) {c : Char}
    (bracket : c ∈ ['<', '>']) (u v : Str) :
    runRules rules (u ++ c :: v) = runRules rules u ++ c :: runRules rules v := by
  have isBracket : IsBracket c := by simpa [IsBracket] using bracket
  have ascii : IsAscii c := by rcases isBracket with rfl | rfl <;> decide
  induction rules generalizing u v with
  | nil => rfl
  | cons rule rules ih =>
    rw [List.forall_mem_cons] at styled
    have unread (k : CharClass) (hk : k ∈ rule.1.classes ++ rule.1.lookbehind) :
        k.test c = false := CharClass.test_of_avoids ascii (styled.1.bracketless k hk c bracket)
    have here : reSub rule.1 rule.2 (u ++ c :: v) =
        reSub rule.1 rule.2 u ++ c :: reSub rule.1 rule.2 v :=
      sub_barrier styled.1.groups (isWord_bracket isBracket)
        (fun k hk => unread k (List.mem_append_right _ hk))
        (fun k hk => unread k (List.mem_append_left _ hk))
    have next := ih styled.2 (reSub rule.1 rule.2 u) (reSub rule.1 rule.2 v)
    rwa [← here] at next

theorem runRules_short {n : Nat} (long : ∀ rule ∈ rules, n < rule.1.least) {text : Str}
    (short : text.length ≤ n) : runRules rules text = text := by
  induction rules with
  | nil => rfl
  | cons rule rules ih =>
    rw [List.forall_mem_cons] at long
    have same : reSub rule.1 rule.2 text = text := by
      refine sub_eq_self (Nat.zero_lt_of_lt long.1) ?_
      rintro ⟨front, u, rest, rfl, reads⟩
      have least := reads.least_le
      simp only [List.length_append] at short
      omega
    exact (congrArg (runRules rules) same).trans (ih long.2)

/-- The rules behind `_REQUEST_ID_RE`. -/
def laterRules : List (Pattern CharClass × (Cursor Char → Str)) := maskingRules.drop 7

theorem laterRules_styled : ∀ rule ∈ laterRules, StyledRule rule := fun rule hr =>
  maskingRules_styled rule (List.mem_of_mem_drop hr)

theorem laterRules_requestId : runRules laterRules "request_id".toList = "request_id".toList := by
  have ascii : ∀ c ∈ "request_id".toList, IsAscii c := by decide
  change reSub Patterns.longNumber _ (reSub Patterns.hexRun _ (reSub Patterns.labelNumber _ _)) = _
  have same {p : Pattern CharClass} {replacement : Cursor Char → Str}
      (unread : @reSub asciiPlatform p replacement "request_id".toList = "request_id".toList) :
      reSub p replacement "request_id".toList = "request_id".toList :=
    (reSub_congr _ asciiPlatform p replacement ascii).trans unread
  rw [same (by decide), same (by decide), same (by decide)]

/-- A placeholder behind a short label stays. -/
theorem laterRules_placeholder {l : Str} (short : l.length ≤ 2) (text : Str) :
    runRules laterRules (l ++ (":<request_id>".toList ++ text)) =
      l ++ (":<request_id>".toList ++ runRules laterRules text) := by
  have whole (text : Str) : l ++ (":<request_id>".toList ++ text) =
      l ++ [':'] ++ '<' :: ("request_id".toList ++ '>' :: text) := by simp
  have front : runRules laterRules (l ++ [':']) = l ++ [':'] := by
    refine @runRules_short _ laterRules 3 (by decide) _ ?_
    rw [List.length_append]
    exact Nat.add_le_add_right short 1
  rw [whole, @runRules_bracket _ laterRules laterRules_styled '<' (by decide),
    @runRules_bracket _ laterRules laterRules_styled '>' (by decide), front, laterRules_requestId,
    whole]

/-- The space in a label of request ids parts what the rules read. -/
theorem laterRules_label {i : Char} (isI : foldCase i = 'i') (u v : Str) :
    runRules laterRules (u ++ ' ' :: i :: v) =
      runRules laterRules u ++ ' ' :: runRules laterRules (i :: v) := by
  have written : foldCase i ∈ labelChars := by rw [isI]; decide
  have notSeparator : ¬ IsSeparator i := fun mark => by
    have word := isWord_of_foldCase written
    rw [isWord_mark mark] at word
    cases word
  have blank : Platform.isDecimal ' ' = false := Platform.isDecimal_ascii ' ' (by decide)
  let place (d : Cursor Char) : Str := d.groupText 1 ++ "=<id>".toList
  have labelled : reSub Patterns.labelNumber place (u ++ ' ' :: i :: v) =
      reSub Patterns.labelNumber place u ++ ' ' :: reSub Patterns.labelNumber place (i :: v) := by
    have none : Patterns.labelNumber.lookbehind = [] := rfl
    refine sub_split (ofGroups_label _) (isWord_mark (by simp)) (by simp [none]) ?_
    rintro front rest z after - split reads
    obtain ⟨label, seps, digits, whole, h⟩ := reads_labelNumber.mp reads
    obtain ⟨c, behind⟩ : ∃ c, seps ++ digits = c ++ ' ' :: z := by
      rcases List.append_eq_append_iff.mp whole with ⟨c, rfl, past⟩ | ⟨c, -, past⟩
      · cases c with
        | nil => exact ⟨[], past.symm⟩
        | cons x c =>
          obtain ⟨rfl, -⟩ := List.cons.inj past
          have solid := numberLabel_solid h.label ' ' (by simp)
          rw [isSpace_blank] at solid
          cases solid
      · exact ⟨c, past⟩
    -- behind the space there is neither a separator nor the end of the number
    cases z with
    | nil =>
      obtain ⟨ds, x, rfl⟩ := (List.eq_nil_or_concat' digits).resolve_left h.some
      rw [← List.append_assoc] at behind
      obtain rfl : x = ' ' := List.singleton_inj.mp (List.append_inj' behind rfl).2
      rw [h.digits ' ' (by simp)] at blank
      cases blank
    | cons y z =>
      obtain ⟨rfl, -⟩ := List.cons.inj split
      have inside : i ∈ seps ++ digits := by simp [behind]
      rcases List.mem_append.mp inside with mark | decimal
      · exact notSeparator (h.seps i mark)
      · have other := isDecimal_of_foldCase written
        rw [h.digits i decimal] at other
        cases other
  have solid {p : Pattern CharClass} {w : String} (u v : Str)
      (solid : ∀ k ∈ p.classes ++ p.lookbehind, k.solid = true) :
      reSub p (fixedText w) (u ++ ' ' :: v) =
        reSub p (fixedText w) u ++ ' ' :: reSub p (fixedText w) v := by
    have unread (k : CharClass) (hk : k ∈ p.classes ++ p.lookbehind) : k.test ' ' = false :=
      CharClass.test_of_avoids (by decide) (Bool.and_eq_true_iff.mp (solid k hk)).2
    exact sub_barrier (fun _ _ _ => rfl) (isWord_mark (by simp))
      (fun k hk => unread k (List.mem_append_right _ hk))
      (fun k hk => unread k (List.mem_append_left _ hk))
  change reSub Patterns.longNumber (fixedText "<number>") (reSub Patterns.hexRun (fixedText "<hex>")
    (reSub Patterns.labelNumber place (u ++ ' ' :: i :: v))) = _
  rw [labelled, solid _ _ (by decide), solid _ _ (by decide)]
  rfl

end Placeholders

section Labels
variable [UnicodePlatform] {words : List Str}

def requestRule : Pattern CharClass × (Cursor Char → Str) :=
  (Patterns.requestId, fun d => d.groupText 1 ++ ":<request_id>".toList)

theorem requestRule_styled : StyledRule requestRule :=
  labelRules_styled requestRule (by simp [labelRules, maskingRules, substitutions, requestRule])

theorem runRules_labelRules (text : Str) : runRules labelRules text =
    runRules laterRules (reSub requestRule.1 requestRule.2 text) := rfl

/-- A match that holds a space in its label alone: the text before it, the two parts of the
label, the request id and what the rule makes of the text. -/
structure LabelCrossing (text front l : Str) (i d : Char) (seps id after out : Str) : Prop where
  isI : foldCase i = 'i'
  isD : foldCase d = 'd'
  text_eq : text = front ++ l ++ ' ' :: i :: d :: (seps ++ (id ++ after))
  named : RequestIdAt front.reverse (l ++ [' ', i, d]) seps id after
  avoids : ScanAvoids CharClass.test isWord Patterns.requestId Platform.isSpace
    ((l ++ ' ' :: i :: d :: (seps ++ id)).reverse ++ front.reverse) after
  fewer : out.countP Platform.isSpace ≤ front.countP Platform.isSpace
  result : reSub requestRule.1 requestRule.2 text = out ++ l ++ ' ' :: i :: d ::
    (":<request_id>".toList ++ subFrom CharClass.test isWord requestRule.1 requestRule.2 0
      ((l ++ ' ' :: i :: d :: (seps ++ id)).reverse ++ front.reverse) after)

/-- Where the rules keep all spaces, a match that holds one holds it in its label. -/
theorem labelCrossing_of_crosses {text : Str} (crossing : crosses Patterns.requestId text = true)
    (kept : (runRules labelRules text).countP Platform.isSpace = text.countP Platform.isSpace) :
    ∃ front l i d seps id after out, LabelCrossing text front l i d seps id after out := by
  have some : 0 < requestRule.1.least := requestRule_styled.styled.some
  rcases @scanAvoids_or_last _ _ CharClass.test isWord requestRule.1 Platform.isSpace some [] text
    with avoids | ⟨front, u, e, text_eq, found, reads, avoids, result⟩
  · have clear := (crosses_eq_false some).mpr avoids
    rw [show crosses requestRule.1 text = true from crossing] at clear
    cases clear
  obtain ⟨out, fewer, result⟩ := result requestRule.2 requestRule_styled.fewer
  rw [List.append_nil] at found
  obtain ⟨seps, id, split, h⟩ := requestIdAt_of_first found
  obtain ⟨_, split', behind, -⟩ := reads_of_first found
  obtain rfl := List.append_cancel_right split'
  rw [← List.append_assoc seps, ← List.append_assoc] at split
  obtain rfl := List.append_cancel_right split
  have placed : requestRule.2 e = e.groupText 1 ++ ":<request_id>".toList := rfl
  have none : ":<request_id>".toList.countP Platform.isSpace = 0 :=
    List.countP_eq_zero.mpr (by simpa using (@fixedText_solid _ ":<request_id>" (by decide)).2)
  have noId : id.countP Platform.isSpace = 0 := List.countP_eq_zero.mpr fun c hc => by
    simpa using CharClass.not_isSpace_of_solid (by decide) (h.id c hc)
  have later := countP_runRules_le laterRules_styled (reSub requestRule.1 requestRule.2 text)
  have behindMatch := requestRule_styled.fewer.countP_le some e.before e.after
  change sub _ _ _ _ _ = _ at result
  rw [runRules_labelRules] at kept
  have total := congrArg (List.countP Platform.isSpace) result
  have whole := congrArg (List.countP Platform.isSpace) text_eq
  simp only [placed, List.countP_append, none, noId] at total whole reads
  change (reSub requestRule.1 requestRule.2 text).countP _ = _ at total
  rcases requestLabel_spaces h.label with solid | ⟨l, rest, label_eq, -, isId, solid, solid'⟩
  · have noLabel : (e.groupText 1).countP Platform.isSpace = 0 :=
      List.countP_eq_zero.mpr (by simpa using solid)
    omega
  · obtain ⟨i, rest, rfl, isI, isId⟩ := List.map_eq_cons_iff.mp isId
    obtain ⟨d, rest, rfl, isD, isId⟩ := List.map_eq_cons_iff.mp isId
    obtain rfl := List.map_eq_nil_iff.mp isId
    rw [label_eq] at h behind text_eq
    rw [placed, label_eq, behind] at result
    refine ⟨front, l, i, d, seps, id, e.after, out, isI, isD, ?_, h, ?_, fewer, ?_⟩
    · simp [text_eq]
    · rw [behind] at avoids
      simpa [requestRule] using avoids
    · change sub _ _ _ _ _ = _
      rw [result]
      simp

/-- The request id of a label crossing is a colon before a placeholder, or the token with the
label's end becomes another one than it does alone. -/
theorem LabelCrossing.colon {text front l : Str} {i d : Char} {seps id after out y : Str}
    (h : LabelCrossing text front l i d seps id after out)
    (opens : OpensId y) (starts : y <+: i :: d :: (seps ++ (id ++ after))) :
    ∃ z, id = [':'] ∧ seps = [] ∧ y = i :: d :: ':' :: '<' :: z := by
  obtain ⟨i', d', -, -, z, rfl⟩ := opens
  obtain ⟨w, split⟩ := starts
  have parts : i' :: d' :: ':' :: '<' :: 'r' :: (z ++ w) = i :: d :: (seps ++ (id ++ after)) :=
    split
  simp only [List.cons.injEq] at parts
  obtain ⟨rfl, rfl, whole⟩ := parts
  have clear : '<' ∉ seps ++ id := fun inside => by
    rcases List.mem_append.mp inside with mark | read
    · exact absurd (h.named.seps _ mark) (by decide)
    · have passes := h.named.id _ read
      rw [test_ascii _ asciiPlatform _ _ (by decide)] at passes
      exact absurd passes (by decide)
  have one : seps ++ id = [':'] := by
    rw [← List.append_assoc] at whole
    match whole' : seps ++ id with
    | [] => exact absurd (List.append_eq_nil_iff.mp whole').2 h.named.some
    | [x] =>
      rw [whole'] at whole
      rw [(List.cons.inj whole).1]
    | x :: x' :: rest =>
      rw [whole'] at whole clear
      simp only [List.cons_append, List.cons.injEq] at whole
      exact absurd (by simp [← whole.2.1]) clear
  cases seps with
  | nil => exact ⟨'r' :: z, one, rfl, rfl⟩
  | cons x seps =>
    exact absurd (List.append_eq_nil_iff.mp (List.cons.inj one).2).2 h.named.some

theorem LabelCrossing.solid {text front l : Str} {i d : Char} {seps id after out : Str}
    (h : LabelCrossing text front l i d seps id after out) :
    ∀ c ∈ [i, d] ++ ":<request_id>".toList, Platform.isSpace c = false := by
  have letter {c : Char} (written : foldCase c ∈ labelChars) : Platform.isSpace c = false :=
    not_isSpace_of_isWord (isWord_of_foldCase written)
  refine List.forall_mem_append.mpr ⟨?_, (@fixedText_solid _ ":<request_id>" (by decide)).2⟩
  simp only [List.forall_mem_cons, List.not_mem_nil, false_implies, implies_true, and_true]
  exact ⟨letter (by rw [h.isI]; decide), letter (by rw [h.isD]; decide)⟩

/-- A label crossing leaves the tokens behind its space with another first token than theirs,
each rewritten alone. -/
theorem LabelCrossing.tokens_ne {text front l : Str} {i d : Char} {seps id after out : Str}
    (h : LabelCrossing text front l i d seps id after out) {b : List Str} (some : b ≠ [])
    (words : Words b) (rest : i :: d :: (seps ++ (id ++ after)) = joinWith [' '] b)
    (kept : (runRules laterRules (subFrom CharClass.test isWord requestRule.1 requestRule.2 0
      ((l ++ ' ' :: i :: d :: (seps ++ id)).reverse ++ front.reverse) after)).countP
        Platform.isSpace =
      (subFrom CharClass.test isWord requestRule.1 requestRule.2 0
        ((l ++ ' ' :: i :: d :: (seps ++ id)).reverse ++ front.reverse) after).countP
          Platform.isSpace) :
    tokens (runRules laterRules (i :: d :: (":<request_id>".toList ++ subFrom CharClass.test isWord
      requestRule.1 requestRule.2 0
        ((l ++ ' ' :: i :: d :: (seps ++ id)).reverse ++ front.reverse) after))) ≠
      b.map (runRules labelRules) := by
  intro same
  generalize replaced : subFrom CharClass.test isWord requestRule.1 requestRule.2 0 _ after = r
    at kept same
  obtain ⟨y, ys, rfl⟩ := List.exists_cons_of_ne_nil some
  have placed : runRules laterRules ([i, d] ++ (":<request_id>".toList ++ r)) =
      [i, d] ++ (":<request_id>".toList ++ runRules laterRules r) :=
    laterRules_placeholder le_rfl r
  change tokens (runRules laterRules ([i, d] ++ (":<request_id>".toList ++ r))) = _ at same
  rw [placed] at same
  obtain ⟨t, tail, split, solid, blank⟩ := word_split (runRules laterRules r)
  have solidFront : ∀ c ∈ [i, d] ++ (":<request_id>".toList ++ t), Platform.isSpace c = false := by
    rw [← List.append_assoc, List.forall_mem_append]
    exact ⟨h.solid, solid⟩
  have first := tokens_word (by simp) solidFront blank
  have whole : [i, d] ++ (":<request_id>".toList ++ runRules laterRules r) =
      [i, d] ++ (":<request_id>".toList ++ t) ++ tail := by rw [split]; simp
  rw [whole, first, List.map_cons] at same
  obtain ⟨own, -⟩ := List.cons.inj same
  have opens : OpensId y := by
    refine opensId_of_labelRules ?_
    rw [← own]
    exact ⟨i, d, h.isI, h.isD, "equest_id>".toList ++ t, by simp⟩
  obtain ⟨z, rfl, rfl, rfl⟩ := h.colon opens (by
    rw [rest]
    cases ys with
    | nil => simp [joinWith]
    | cons v ys =>
      rw [joinWith_cons_cons]
      exact List.prefix_append _ _)
  -- what is behind the colon is rewritten alike, so that the placeholder is one too many
  have bracket : Words (('<' :: z) :: ys) := by
    refine List.forall_mem_cons.mpr ⟨⟨List.cons_ne_nil _ _, fun c hc => ?_⟩,
      (List.forall_mem_cons.mp words).2⟩
    exact (words _ List.mem_cons_self).2 c (List.mem_append_right [i, d, ':'] hc)
  have after_eq : after = joinWith [' '] (('<' :: z) :: ys) := by
    cases ys with
    | nil => simpa [joinWith] using rest
    | cons v ys => simpa [joinWith_cons_cons] using rest
  have outside : wordAt isWord ((l ++ ' ' :: i :: d :: ([] ++ [':'])).reverse ++ front.reverse) =
      false := by
    simpa [wordAt] using isWord_mark (.inl rfl)
  have none : requestRule.1.lookbehind = [] := rfl
  have alone : reSub requestRule.1 requestRule.2 after = r := by
    rw [← replaced]
    exact (subFrom_onto (by simp [none]) requestRule_styled.groups 0 [] after
      (.inr (.inr outside))).symm
  have avoids : ScanAvoids CharClass.test isWord requestRule.1 Platform.isSpace [] after := by
    have cut := @subFrom_onto _ _ CharClass.test isWord _ requestRule.1
      (by simp [none]) (fun _ => []) (fun _ _ _ => rfl) 0 [] after (.inr (.inr outside))
    have given := h.avoids
    rw [ScanAvoids] at given ⊢
    rw [← cut]
    exact given
  have clear : crossed labelRules after = false := by
    refine Bool.or_eq_false_iff.mpr
      ⟨(crosses_eq_false requestRule_styled.styled.some).mpr avoids, ?_⟩
    refine crossed_eq_false laterRules_styled (fun rule hr =>
      others_placeNoSpace rule (List.mem_append_right _ hr)) ?_
    change (runRules laterRules (reSub requestRule.1 requestRule.2 after)).countP _ =
      (reSub requestRule.1 requestRule.2 after).countP _
    rw [alone, kept]
  have rewritten := bracket.runRules_joinSpaces labelRules_styled (after_eq ▸ clear)
  rw [← after_eq, runRules_labelRules, alone, split, List.map_cons] at rewritten
  have solidWord := (bracket.map_runRules labelRules_styled _ List.mem_cons_self).2
  obtain ⟨tail', parted, blank'⟩ : ∃ tail', t ++ tail = runRules labelRules ('<' :: z) ++ tail' ∧
      ∀ c ∈ tail'.head?, Platform.isSpace c = true := by
    cases ys with
    | nil => exact ⟨[], by simpa [joinWith] using rewritten, by simp⟩
    | cons v ys =>
      rw [List.map_cons, joinWith_cons_cons] at rewritten
      exact ⟨_, rewritten, by simpa using isSpace_blank⟩
  obtain ⟨rfl, -⟩ := word_unique solid solidWord blank blank' parted
  have behind : runRules labelRules ('<' :: z) = '<' :: runRules labelRules z :=
    (@runRules_bracket _ labelRules labelRules_styled '<' (by decide) [] z).trans (by
      rw [runRules_nil]
      rfl)
  have token : runRules labelRules ([i, d, ':'] ++ '<' :: z) =
      [i, d, ':'] ++ '<' :: runRules labelRules z := by
    rw [@runRules_bracket _ labelRules labelRules_styled '<' (by decide),
      @runRules_short _ labelRules 3 (by decide) _ le_rfl]
  have total := congrArg List.length (own.trans token)
  rw [behind] at total
  simp only [List.length_append, List.length_cons, List.length_nil] at total
  have long : ":<request_id>".toList.length = 13 := rfl
  omega

/-- Where a label of request ids holds a space, the tokens are not rewritten one by one. -/
theorem tokens_ne_of_crosses {words : List Str} (h : Words words)
    (crossing : crosses Patterns.requestId (joinWith [' '] words) = true) :
    tokens (runRules labelRules (joinWith [' '] words)) ≠ words.map (runRules labelRules) := by
  intro same
  have some : words ≠ [] := by
    rintro rfl
    cases crossing
  have solid (w : Str) (hw : w ∈ words) := (h w hw).2
  have size := congrArg List.length same
  rw [List.length_map] at size
  have spaces := countP_joinWith isSpace_blank solid some
  have most := length_tokens_le (runRules labelRules (joinWith [' '] words))
  have fewer := countP_runRules_le labelRules_styled (joinWith [' '] words)
  obtain ⟨front, l, i, d, seps, id, after, out, crossing⟩ :=
    labelCrossing_of_crosses crossing (by omega)
  obtain ⟨a, b, rfl, someB, front_eq, rest_eq, someA⟩ :=
    joinWith_eq_append (h.free isSpace_blank) crossing.text_eq
  have least := requestRule_styled.fewer.countP_le requestRule_styled.styled.some
    ((l ++ ' ' :: i :: d :: (seps ++ id)).reverse ++ front.reverse) after
  have differ := crossing.tokens_ne someB (fun w hw => h w (List.mem_append_right _ hw)) rest_eq
  rw [runRules_labelRules, crossing.result, laterRules_label crossing.isI,
    tokens_append_cons isSpace_blank, List.map_append] at same
  generalize subFrom CharClass.test isWord requestRule.1 requestRule.2 0 _ after = r
    at least differ same
  have placed : (runRules laterRules (i :: d :: (":<request_id>".toList ++ r))).countP
      Platform.isSpace = (runRules laterRules r).countP Platform.isSpace := by
    have none : ([i, d] ++ ":<request_id>".toList).countP Platform.isSpace = 0 :=
      List.countP_eq_zero.mpr (by simpa using crossing.solid)
    change (runRules laterRules ([i, d] ++ (":<request_id>".toList ++ r))).countP _ = _
    rw [laterRules_placeholder le_rfl, ← List.append_assoc, List.countP_append, none, Nat.zero_add]
  have inside : after.countP Platform.isSpace ≤ (joinWith [' '] b).countP Platform.isSpace := by
    rw [← rest_eq]
    exact List.Sublist.countP_le (((List.sublist_append_right id after).trans
      (List.sublist_append_right seps _)).cons _ |>.cons _)
  have sizes := congrArg List.length same
  have left := length_tokens_le (runRules laterRules (out ++ l))
  have right := length_tokens_le (runRules laterRules (i :: d :: (":<request_id>".toList ++ r)))
  have keptLeft := countP_runRules_le laterRules_styled (out ++ l)
  have keptRight := countP_runRules_le laterRules_styled r
  have fewerOut := crossing.fewer
  have sizeA := countP_joinWith isSpace_blank
    (fun w hw => solid w (List.mem_append_left b hw)) someA
  have sizeB := countP_joinWith isSpace_blank
    (fun w hw => solid w (List.mem_append_right a hw)) someB
  rw [← front_eq, List.countP_append] at sizeA
  rw [List.countP_append] at keptLeft
  rw [List.length_append, List.length_append, List.length_map, List.length_map] at sizes
  have lengths : (tokens (runRules laterRules (out ++ l))).length =
      (a.map (runRules labelRules)).length := by
    rw [List.length_map]
    omega
  exact differ (by omega) (List.append_inj same lengths).2

end Labels

section Style
variable [UnicodePlatform]

theorem tokens_normalizeMessage (message : Str) :
    tokens (normalizeMessage message) = tokens (runRules maskingRules (strip message)) := by
  rw [normalizeMessage_eq, tokens_strip]
  exact tokens_collapse (masked message)

/-- Between tabs no rule crosses from one token to the next. -/
theorem Words.tokens_joinTabs {words : List Str} (h : Words words) :
    tokens (normalizeMessage (joinWith ['\t'] words)) = words.map (runRules maskingRules) := by
  rw [tokens_normalizeMessage, h.strip_joinWith, runRules_joinTabs maskingRules_styled,
    tokens_joinWith (Platform.isSpace_ascii '\t' (by decide)) (h.map_runRules maskingRules_styled)]

/-- Spaces that a rule crosses are not as good as tabs. -/
theorem Words.normalizeMessage_ne {words : List Str} (h : Words words)
    (crossing : crossed maskingRules (joinWith [' '] words) = true) :
    normalizeMessage (joinWith [' '] words) ≠ normalizeMessage (joinWith ['\t'] words) := by
  intro alike
  have same := congrArg tokens alike
  rw [h.tokens_joinTabs, tokens_normalizeMessage, h.strip_joinWith] at same
  have some : words ≠ [] := by
    rintro rfl
    cases crossing
  have values_styled (rule) (hr : rule ∈ maskingRules.take 6) : StyledRule rule :=
    maskingRules_styled rule (List.mem_of_mem_take hr)
  have parts (text : Str) : runRules maskingRules text =
      runRules labelRules (runRules (maskingRules.take 6) text) := rfl
  rw [parts] at same
  have size := congrArg List.length same
  rw [List.length_map] at size
  have spaces := countP_joinWith isSpace_blank (fun w hw => (h w hw).2) some
  have most := length_tokens_le
    (runRules labelRules (runRules (maskingRules.take 6) (joinWith [' '] words)))
  have fewer := countP_runRules_le values_styled (joinWith [' '] words)
  have fewer' := countP_runRules_le labelRules_styled
    (runRules (maskingRules.take 6) (joinWith [' '] words))
  have clear : crossed (maskingRules.take 6) (joinWith [' '] words) = false :=
    crossed_eq_false values_styled (fun rule hr =>
      others_placeNoSpace rule (List.mem_append_left _ hr)) (by omega)
  have whole := crossed_append (maskingRules.take 6) labelRules (joinWith [' '] words)
  rw [show maskingRules.take 6 ++ labelRules = maskingRules from rfl, crossing, clear,
    Bool.false_or] at whole
  generalize masked_eq : runRules (maskingRules.take 6) (joinWith [' '] words) = text at *
  have least := requestRule_styled.fewer.countP_le requestRule_styled.styled.some [] text
  change (reSub requestRule.1 requestRule.2 text).countP _ ≤ _ at least
  have later := countP_runRules_le laterRules_styled (reSub requestRule.1 requestRule.2 text)
  rw [runRules_labelRules] at most size fewer'
  have clear' : crossed laterRules (reSub requestRule.1 requestRule.2 text) = false :=
    crossed_eq_false laterRules_styled (fun rule hr =>
      others_placeNoSpace rule (List.mem_append_right _ hr)) (by omega)
  have split : crossed labelRules text = (crosses Patterns.requestId text ||
      crossed laterRules (reSub requestRule.1 requestRule.2 text)) := rfl
  rw [clear', Bool.or_false, ← whole] at split
  obtain rfl := (h.runRules_joinSpaces values_styled clear).symm.trans masked_eq
  refine tokens_ne_of_crosses (h.map_runRules values_styled) split.symm ?_
  rw [same, List.map_map]
  exact List.map_congr_left fun w _ => parts w

/-- The white space between the tokens does not matter exactly where no match of a rule holds a
space of the single-spaced message. -/
theorem normalizeMessage_style_iff (message : Str) :
    (∀ other, tokens other = tokens message → normalizeMessage other = normalizeMessage message) ↔
      crossed maskingRules (joinWith [' '] (tokens message)) = false := by
  have words := words_tokens message
  have own {c : Char} (space : Platform.isSpace c = true) :
      tokens (joinWith [c] (tokens message)) = tokens message := tokens_joinWith space words
  constructor
  · intro style
    refine Bool.eq_false_iff.mpr fun crossing => words.normalizeMessage_ne crossing ?_
    rw [style _ (own isSpace_blank), style _ (own (Platform.isSpace_ascii '\t' (by decide)))]
  · intro clear other same
    rw [normalizeMessage_of_clear clear, normalizeMessage_of_clear (same ▸ clear), same]

example : letI := foldingPlatform
    crossed maskingRules "order 48213 of id=7 took 12 ms".toList = false ∧
      crossed maskingRules "order 48213 of id 7 took 12 ms".toList = true := by decide +kernel

end Style

end LogLens
