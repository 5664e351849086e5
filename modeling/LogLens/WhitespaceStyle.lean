import LogLens.SpacedMatches

/-! The white space between the tokens of a message does not matter to its normal form exactly
where no rule has a match that holds one of the single spaces of the message. -/

namespace LogLens
open BacktrackingRegex

section Words
variable [Platform]

/-- What reads no white space ends in the word it begins in. -/
theorem solid_within {t tail u rest : Str} (solid : ∀ c ∈ u, Platform.isSpace c = false)
    (blank : ∀ c ∈ tail.head?, Platform.isSpace c = true) (split : t ++ tail = u ++ rest) :
    tail.length ≤ rest.length := by
  rw [List.append_eq_append_iff] at split
  rcases split with ⟨z, rfl, rfl⟩ | ⟨z, -, rfl⟩
  · cases z with
    | nil => exact le_rfl
    | cons c z =>
      have own := solid c (by simp)
      rw [blank c rfl] at own
      cases own
  · rw [List.length_append]
    omega

/-- Two words that white space ends are the same. -/
theorem word_unique {t u tail rest : Str} (solid : ∀ c ∈ t, Platform.isSpace c = false)
    (solid' : ∀ c ∈ u, Platform.isSpace c = false)
    (blank : ∀ c ∈ tail.head?, Platform.isSpace c = true)
    (blank' : ∀ c ∈ rest.head?, Platform.isSpace c = true) (split : t ++ tail = u ++ rest) :
    t = u ∧ tail = rest := by
  have long := solid_within solid' blank split
  have long' := solid_within solid blank' split.symm
  have total := congrArg List.length split
  rw [List.length_append, List.length_append] at total
  exact List.append_inj split (by omega)

theorem solid_of_collapse {text : Str} (solid : ∀ c ∈ collapse text, Platform.isSpace c = false) :
    ∀ c ∈ text, Platform.isSpace c = false := by
  have h := collapses text
  generalize collapse text = result at h solid
  induction h with
  | nil => exact solid
  | solid here next ih =>
    rw [List.forall_mem_cons] at solid ⊢
    exact ⟨here, ih solid.2⟩
  | gap space next ih =>
    have blank := solid ' ' List.mem_cons_self
    rw [isSpace_blank] at blank
    cases blank

end Words

section Values
variable [UnicodePlatform] {p : Pattern CharClass}

/-- A pattern that reads no white space. -/
theorem styledPattern_solid (some : 0 < p.least)
    (solid : ∀ k ∈ p.classes ++ p.firsts ++ p.lookbehind, k.solid = true) : StyledPattern p where
  some := some
  starts k hk := solid k (by simp [hk])
  behind k hk := solid k (by simp [hk])
  bridges {_ _ t tail d} _ _ blank found beyond := by
    obtain ⟨u, split, -, reads⟩ := reads_of_first found
    refine absurd (solid_within (fun c hc => ?_) blank split) (Nat.not_le.mpr beyond)
    obtain ⟨k, hk, passes⟩ := reads.classes c hc
    exact CharClass.not_isSpace_of_solid (solid k (by simp [hk])) passes

theorem solid_of_reads {before u after : Str} (solid : ∀ k ∈ p.classes, k.solid = true)
    (reads : Reads CharClass.test isWord p before u after) :
    ∀ c ∈ u, Platform.isSpace c = false := fun c hc =>
  have ⟨k, hk, passes⟩ := reads.classes c hc
  CharClass.not_isSpace_of_solid (solid k hk) passes

/-- The times of a timestamp, behind its mark. -/
def isoTimes : Pattern CharClass :=
  .chain [.exactly 2 .decimal, Patterns.lits ":", .exactly 2 .decimal, Patterns.lits ":",
    .exactly 2 .decimal, .optional (.chain [Patterns.lits ".", .atLeast 1 .decimal]),
    .optional (.alt (Patterns.lits "Z") (.chain [.one (.anyOf ['+', '-'] []), .exactly 2 .decimal,
      .optional (Patterns.lits ":"), .exactly 2 .decimal]))]

theorem reads_isoTimestamp {before u after : Str} :
    Reads CharClass.test isWord Patterns.isoTimestamp before u after ↔
      wordAt isWord before ≠ wordAt isWord (u ++ after) ∧ (∃ day c times,
        u = day ++ c :: times ∧ Reads CharClass.test isWord Patterns.isoDay [] day [] ∧
        (c = ' ' ∨ c = 'T') ∧ Reads CharClass.test isWord isoTimes [] times []) ∧
      wordAt isWord (u.reverse ++ before) ≠ wordAt isWord after := by
  have delimited : Patterns.isoTimestamp = .chain (.boundary :: ([Patterns.isoDay,
      .one (.anyOf [' ', 'T'] []), .exactly 2 .decimal, Patterns.lits ":", .exactly 2 .decimal,
      Patterns.lits ":", .exactly 2 .decimal,
      .optional (.chain [Patterns.lits ".", .atLeast 1 .decimal]),
      .optional (.alt (Patterns.lits "Z") (.chain [.one (.anyOf ['+', '-'] []),
        .exactly 2 .decimal, .optional (Patterns.lits ":"), .exactly 2 .decimal]))] ++
      [.boundary])) := rfl
  rw [delimited, reads_delimited]
  refine and_congr_right fun _ => and_congr_left fun _ => ?_
  constructor
  · rintro ⟨day, _, rfl, isDay, _, times, rfl, isMark, isTimes⟩
    obtain ⟨c, rfl, mark⟩ := reads_one.mp isMark
    exact ⟨day, c, times, rfl, isDay.of_contextFree (by decide),
      by simpa [CharClass.test] using mark, isTimes.of_contextFree (by decide)⟩
  · rintro ⟨day, c, times, rfl, isDay, mark, isTimes⟩
    exact ⟨day, c :: times, rfl, isDay.of_contextFree (by decide), [c], times, rfl,
      reads_one.mpr ⟨c, rfl, by simpa [CharClass.test] using mark⟩,
      isTimes.of_contextFree (by decide)⟩

theorem styledPattern_isoTimestamp : StyledPattern Patterns.isoTimestamp where
  some := by decide
  starts := by decide
  behind := by decide
  bridges {before before' t tail d} same solid blank found beyond := by
    obtain ⟨u, split, -, reads⟩ := reads_of_first found
    dsimp only at split
    obtain ⟨start, ⟨day, c, times, rfl, isDay, mark, isTimes⟩, finish⟩ :=
      reads_isoTimestamp.mp reads
    have daySolid := solid_of_reads (by decide) isDay
    have timesSolid := solid_of_reads (by decide) isTimes
    have gap : Platform.isSpace c = true := by
      refine Bool.not_eq_false _ |>.mp fun here => ?_
      refine absurd (solid_within ?_ blank split) (Nat.not_le.mpr beyond)
      simp only [List.forall_mem_append, List.forall_mem_cons]
      exact ⟨daySolid, here, timesSolid⟩
    obtain rfl : c = ' ' := mark.resolve_right fun isT => by
      rw [isT, Platform.isSpace_ascii 'T' (by decide)] at gap
      exact absurd gap (by decide)
    rw [List.append_assoc, List.cons_append] at split
    obtain ⟨rfl, rfl⟩ := word_unique solid daySolid blank (by simpa using gap) split
    have someTimes : times ≠ [] := by
      rintro rfl
      have least := isTimes.least_le
      exact absurd least (by decide)
    have stops : ∀ x ∈ (times ++ d.after).head?, Platform.isSpace x = false := by
      intro x hx
      rw [List.head?_append_of_ne_nil _ someTimes] at hx
      exact timesSolid x (List.mem_of_mem_head? hx)
    have tail : collapse (' ' :: (times ++ d.after)) = ' ' :: (times ++ collapse d.after) := by
      rw [collapse_gap gap, dropWhile_stops stops, collapse_solid timesSolid]
    have someMatch : t ++ ' ' :: times ≠ [] := by simp
    have again : Reads CharClass.test isWord Patterns.isoTimestamp before' (t ++ ' ' :: times)
        (collapse d.after) := by
      refine reads_isoTimestamp.mpr ⟨?_, ⟨t, ' ', times, rfl, isDay, .inl rfl, isTimes⟩, ?_⟩
      · rwa [wordAt_append_of_ne_nil someMatch, ← same, ← wordAt_append_of_ne_nil someMatch d.after]
      · rwa [wordAt_reverse_append someMatch, wordAt_collapse,
          ← wordAt_reverse_append someMatch before]
    rw [tail]
    have whole : t ++ ' ' :: (times ++ collapse d.after) =
        t ++ ' ' :: times ++ collapse d.after := by simp
    cases found' : first CharClass.test isWord Patterns.isoTimestamp
        { before := before', after := t ++ ' ' :: (times ++ collapse d.after) } with
    | none => exact absurd again (first_eq_none_iff.mp found' _ _ whole)
    | some e =>
      refine ⟨e, rfl, ?_⟩
      obtain ⟨v, split', -, reads'⟩ := reads_of_first found'
      -- a day is shorter than a timestamp
      have size := congrArg List.length split'
      have dayLength : t.length = 10 := by
        have size : t.countP (fun _ => true) = 10 :=
          @Reads.countP _ _ _ _ _ (fun _ => true) _ (fun _ _ _ _ => rfl) _ rfl _ _ _ isDay
        rwa [List.countP_true] at size
      have least := reads'.least_le
      have long : Patterns.isoTimestamp.least = 19 := rfl
      simp only [List.length_append, List.length_cons] at size ⊢
      omega

end Values

section Labels
variable [UnicodePlatform]

theorem collapse_value {seps value : Str} (some : value ≠ [])
    (solid : ∀ c ∈ value, Platform.isSpace c = false) (after : Str) :
    collapse (seps ++ (value ++ after)) = collapse seps ++ (value ++ collapse after) := by
  obtain ⟨x, rest, rfl⟩ := List.exists_cons_of_ne_nil some
  rw [List.forall_mem_cons] at solid
  rw [List.cons_append, collapse_append solid.1, collapse_solid solid.2, List.cons_append]

/-- A label and its value in a text of which a word is spoken first: with the white space
behind the word collapsed, the word still ends before the value. -/
theorem collapse_labelled {t tail label seps value after : Str}
    (solid : ∀ c ∈ t, Platform.isSpace c = false)
    (blank : ∀ c ∈ tail.head?, Platform.isSpace c = true)
    (named : ∀ text, collapse (label ++ text) = label ++ collapse text) (some : value ≠ [])
    (solidValue : ∀ c ∈ value, Platform.isSpace c = false)
    (split : t ++ tail = label ++ (seps ++ (value ++ after)))
    (beyond : after.length < tail.length) :
    t ++ collapse tail = label ++ (collapse seps ++ (value ++ collapse after)) ∧
      (value ++ collapse after).length < (collapse tail).length := by
  have whole : t ++ collapse tail = label ++ (collapse seps ++ (value ++ collapse after)) := by
    rw [← collapse_solid solid, split, named, collapse_value some solidValue]
  refine ⟨whole, Nat.lt_of_not_le fun short => ?_⟩
  have total := congrArg List.length whole
  simp only [List.length_append] at total short
  have inWord : label ++ collapse seps <+: t := by
    have begins : label ++ collapse seps <+: t ++ collapse tail := by
      rw [whole, ← List.append_assoc]
      exact List.prefix_append _ _
    refine List.prefix_of_prefix_length_le begins (List.prefix_append _ _) ?_
    rw [List.length_append]
    omega
  have front : ∀ c ∈ label ++ collapse seps, Platform.isSpace c = false :=
    fun c hc => solid c (inWord.subset hc)
  rw [List.forall_mem_append] at front
  rw [← List.append_assoc, ← List.append_assoc] at split
  refine absurd (solid_within ?_ blank split) (Nat.not_le.mpr beyond)
  simp only [List.forall_mem_append]
  exact ⟨⟨front.1, solid_of_collapse front.2⟩, solidValue⟩

theorem separators_collapse {seps : Str} (separators : ∀ c ∈ seps, IsSeparator c) :
    ∀ c ∈ collapse seps, IsSeparator c := by
  intro c hc
  rcases (collapses seps).mem c hc with rfl | ⟨within, -⟩
  · exact .inr (.inr rfl)
  · exact separators c within

/-- The separators are read as far as the request id behind them allows. -/
theorem first_requestId_beyond {before label seps id after : Str}
    (h : RequestIdAt before label seps id after) :
    ∃ e, first CharClass.test isWord Patterns.requestId
        { before := before, after := label ++ (seps ++ (id ++ after)) } = some e ∧
      e.after.length < (id ++ after).length := by
  cases found : first CharClass.test isWord Patterns.requestId
      { before := before, after := label ++ (seps ++ (id ++ after)) } with
  | none =>
    refine absurd (reads_requestId.mpr ⟨label, seps, id, rfl, h⟩)
      (first_eq_none_iff.mp found _ after ?_)
    simp
  | some e =>
    refine ⟨e, rfl, ?_⟩
    obtain ⟨c, way, found⟩ := first_seq found
    obtain ⟨_, here, -, rfl, -⟩ := reads_of_mem_ways way
    obtain ⟨named, way, found⟩ := first_seq found
    obtain ⟨label', split, -, isLabel⟩ := reads_of_mem_ways way
    rw [← show label ++ (seps ++ (id ++ after)) = c.after from here] at split
    obtain ⟨-, ahead⟩ := label_unique requestLabels_free h.label (reads_requestLabel.mp isLabel)
      split
    obtain ⟨ended, way, found⟩ := first_seq found
    obtain ⟨_, here, -, rfl, -⟩ := reads_of_mem_ways way
    rw [List.nil_append, ← ahead] at here
    cases next : first CharClass.test isWord (.chain [.group 2 (.atLeast 1 Patterns.idChar)])
        { ended with before := seps.reverse ++ ended.before, after := id ++ after } with
    | none =>
      refine absurd ?_ (first_eq_none_iff.mp next id after rfl)
      exact ⟨id, [], (List.append_nil id).symm,
        ⟨List.length_pos_iff.mpr h.some, by simp, h.id⟩, rfl⟩
    | some e' =>
      obtain ⟨seps', after', split', long, last⟩ := first_run_longest found here.symm
        (Nat.zero_le _) (fun x hx => test_separator.mpr (h.seps x hx)) next
      have shorter := first_shorter (by decide) last
      have total := congrArg List.length (here.trans split')
      simp only [List.length_append] at total shorter ⊢
      omega

theorem styledPattern_requestId : StyledPattern Patterns.requestId where
  some := by decide
  starts := by decide
  behind := by decide
  bridges {before before' t tail d} same solid blank found beyond := by
    obtain ⟨seps, id, split, h⟩ := requestIdAt_of_first found
    have solidId (c : Char) (hc : c ∈ id) : Platform.isSpace c = false :=
      CharClass.not_isSpace_of_solid (by decide) (h.id c hc)
    obtain ⟨whole, short⟩ := collapse_labelled solid blank (collapse_label h.label) h.some solidId
      split beyond
    have labelEnd : wordAt isWord (collapse seps ++ (id ++ collapse d.after)) = false := by
      rw [← collapse_value h.some solidId, wordAt_collapse]
      exact h.labelEnd
    have again : RequestIdAt before' (d.groupText 1) (collapse seps) id (collapse d.after) :=
      ⟨h.label, same ▸ h.start, labelEnd, separators_collapse h.seps, h.some, h.id⟩
    obtain ⟨e, found', far⟩ := first_requestId_beyond again
    rw [whole]
    exact ⟨e, found', far.trans short⟩

theorem styledPattern_labelNumber : StyledPattern Patterns.labelNumber where
  some := by decide
  starts := by decide
  behind := by decide
  bridges {before before' t tail d} same solid blank found beyond := by
    obtain ⟨seps, digits, split, h⟩ := labelNumberAt_of_first found
    have solidLabel (c : Char) (hc : c ∈ d.groupText 1) : Platform.isSpace c = false := by
      have letters : ∀ l ∈ numberLabels, ∀ x ∈ l, x ∈ labelChars := by decide
      exact not_isSpace_of_isWord
        (isWord_of_foldCase (letters _ h.label _ (List.mem_map_of_mem hc)))
    have solidDigits (c : Char) (hc : c ∈ digits) : Platform.isSpace c = false :=
      CharClass.not_isSpace_of_solid (k := .decimal) (by decide) (h.digits c hc)
    obtain ⟨whole, short⟩ := collapse_labelled solid blank (collapse_solid solidLabel) h.some
      solidDigits split beyond
    have again : LabelNumberAt before' (d.groupText 1) (collapse seps) digits (collapse d.after) :=
      ⟨h.label, same ▸ h.start, fun none => h.someSeps ((collapses seps).ne_nil.mpr none),
        separators_collapse h.seps, h.some, h.digits, (wordAt_collapse _).trans h.finish⟩
    obtain ⟨e, found', ahead, -⟩ := first_labelNumber again
    rw [whole]
    refine ⟨e, found', ?_⟩
    rw [ahead]
    refine lt_of_le_of_lt ?_ short
    rw [List.length_append]
    exact Nat.le_add_left _ _

end Labels

section Rules
variable [UnicodePlatform]

theorem fixedText_solid {w : String} (hw : w ∈ placeholders) :
    w.toList ≠ [] ∧ ∀ c ∈ w.toList, Platform.isSpace c = false := by
  have table : ∀ w ∈ placeholders, w.toList ≠ [] ∧
      ∀ c ∈ w.toList, IsAscii c ∧ asciiSpace c = false := by decide
  obtain ⟨some, solid⟩ := table w hw
  exact ⟨some, fun c hc => (Platform.isSpace_ascii c (solid c hc).1).trans (solid c hc).2⟩

/-- A match of a label rule begins with the label that it keeps. -/
def KeepsLabel (p : Pattern CharClass) : Prop :=
  ∀ {c d : Cursor Char}, first CharClass.test isWord p c = some d →
    ∃ value, c.after = d.groupText 1 ++ (value ++ d.after)

theorem keepsLabel_requestId : KeepsLabel Patterns.requestId := fun found => by
  obtain ⟨seps, id, split, -⟩ := requestIdAt_of_first found
  exact ⟨seps ++ id, by rw [split, List.append_assoc]⟩

theorem keepsLabel_labelNumber : KeepsLabel Patterns.labelNumber := fun found => by
  obtain ⟨seps, digits, split, -⟩ := labelNumberAt_of_first found
  exact ⟨seps ++ digits, by rw [split, List.append_assoc]⟩

/-- A rule whose pattern is styled, and that places solid text and parts of what it reads. -/
structure StyledRule (rule : Pattern CharClass × (Cursor Char → Str)) : Prop where
  styled : StyledPattern rule.1
  plain : ∀ k ∈ rule.1.classes ++ rule.1.lookbehind, k.plain = true
  bracketless : ∀ k ∈ rule.1.classes ++ rule.1.lookbehind, ∀ c ∈ ['<', '>'], k.avoids c = true
  groups : OfGroups rule.2
  places : PlacesSolid rule.1 rule.2
  fewer : NoMore CharClass.test isWord rule.1 rule.2 Platform.isSpace

theorem styledRule_fixed {p : Pattern CharClass} (styled : StyledPattern p)
    (plain : ∀ k ∈ p.classes ++ p.lookbehind, k.plain = true)
    (bracketless : ∀ k ∈ p.classes ++ p.lookbehind, ∀ c ∈ ['<', '>'], k.avoids c = true)
    {w : String} (hw : w ∈ placeholders) : StyledRule (p, fixedText w) where
  styled := styled
  plain := plain
  bracketless := bracketless
  groups _ _ _ := rfl
  places _ _ _ _ _ := fixedText_solid hw
  fewer _ _ _ _ := by
    have none : w.toList.countP Platform.isSpace = 0 :=
      List.countP_eq_zero.mpr (by simpa using (fixedText_solid hw).2)
    exact none.trans_le (Nat.zero_le _)

theorem styledRule_label {p : Pattern CharClass} (styled : StyledPattern p)
    (plain : ∀ k ∈ p.classes ++ p.lookbehind, k.plain = true)
    (bracketless : ∀ k ∈ p.classes ++ p.lookbehind, ∀ c ∈ ['<', '>'], k.avoids c = true)
    (keeps : KeepsLabel p) {w : String} (hw : w ∈ placeholders) :
    StyledRule (p, fun d => d.groupText 1 ++ w.toList) where
  styled := styled
  plain := plain
  bracketless := bracketless
  groups := ofGroups_label w
  places before u d found solid := by
    obtain ⟨some, solidText⟩ := fixedText_solid hw
    obtain ⟨value, split⟩ := keeps found
    rw [← List.append_assoc] at split
    refine ⟨by simp [some], List.forall_mem_append.mpr ⟨fun c hc => solid c ?_, solidText⟩⟩
    rw [List.append_cancel_right split]
    exact List.mem_append_left _ hc
  fewer before u d found := by
    obtain ⟨value, split⟩ := keeps found
    rw [← List.append_assoc] at split
    have none : w.toList.countP Platform.isSpace = 0 :=
      List.countP_eq_zero.mpr (by simpa using (fixedText_solid hw).2)
    rw [List.append_cancel_right split, List.countP_append, List.countP_append, none]
    omega

theorem maskingRules_styled : ∀ rule ∈ maskingRules, StyledRule rule := by
  simp only [maskingRules, substitutions, List.take_succ_cons, List.take_zero,
    List.forall_mem_cons, List.not_mem_nil, false_implies, implies_true, and_true]
  have solid {p : Pattern CharClass} (some : 0 < p.least)
      (solid : ∀ k ∈ p.classes ++ p.firsts ++ p.lookbehind, k.solid = true)
      (bracketless : ∀ k ∈ p.classes ++ p.lookbehind, ∀ c ∈ ['<', '>'], k.avoids c = true)
      {w : String} (hw : w ∈ placeholders) : StyledRule (p, fixedText w) := by
    refine styledRule_fixed (styledPattern_solid some solid) (fun k hk => ?_) bracketless hw
    have own : k.solid = true := by
      rcases List.mem_append.mp hk with read | behind
      · exact solid k (by simp [read])
      · exact solid k (by simp [behind])
    exact (Bool.and_eq_true_iff.mp own).1
  exact ⟨solid (by decide) (by decide) (by decide) (by decide),
    styledRule_fixed styledPattern_isoTimestamp (by decide) (by decide) (by decide),
    solid (by decide) (by decide) (by decide) (by decide),
    solid (by decide) (by decide) (by decide) (by decide),
    solid (by decide) (by decide) (by decide) (by decide),
    solid (by decide) (by decide) (by decide) (by decide),
    styledRule_label styledPattern_requestId (by decide) (by decide) keepsLabel_requestId
      (by decide),
    styledRule_label styledPattern_labelNumber (by decide) (by decide) keepsLabel_labelNumber
      (by decide),
    solid (by decide) (by decide) (by decide) (by decide),
    solid (by decide) (by decide) (by decide) (by decide)⟩

/-- Rules that do not cross the white space of the collapsed text read the text alike. -/
theorem collapse_runRules (rules : List (Pattern CharClass × (Cursor Char → Str)))
    (styled : ∀ rule ∈ rules, StyledRule rule) {text : Str}
    (clear : crossed rules (collapse text) = false) :
    collapse (runRules rules text) = runRules rules (collapse text) := by
  induction rules generalizing text with
  | nil => rfl
  | cons rule rules ih =>
    rw [List.forall_mem_cons] at styled
    rw [crossed, Bool.or_eq_false_iff] at clear
    have avoids := (crosses_eq_false styled.1.styled.some).mp clear.1
    have alike : SubstitutedAlike rule.1 rule.2 ([] ++ []) ([] ++ []) text :=
      styled.1.styled.alike styled.1.groups styled.1.places (by simp) (by simp) avoids
    have same : collapse (reSub rule.1 rule.2 text) = reSub rule.1 rule.2 (collapse text) :=
      alike.same
    have rest := ih styled.2 (same ▸ clear.2)
    rwa [same] at rest

/-- The normal form of a message whose single spaces no rule crosses. -/
theorem normalizeMessage_of_clear {message : Str}
    (clear : crossed maskingRules (joinWith [' '] (tokens message)) = false) :
    normalizeMessage message = strip (runRules maskingRules (joinWith [' '] (tokens message))) := by
  rw [← collapse_strip] at clear ⊢
  rw [normalizeMessage_eq, ← collapse_runRules maskingRules maskingRules_styled clear]
  rfl

end Rules

end LogLens
