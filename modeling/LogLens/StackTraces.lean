import LogLens.Lines
import LogLens.StackFrames

/-! Stack traces that differ only in line and column numbers: which of them are normalised
alike. -/

namespace LogLens
open BacktrackingRegex

section Lines

/-- The substitutions up to the label rules mask the 0 at the end of the line. -/
def lineMasks [Platform] (line : Str) : Prop :=
  ((maskingRules.take 8).foldl (fun normalized s => reSub s.1 s.2 normalized)
    (strip (maskFrame line))).getLast? ≠ some '0'

/-- A label rule masks the number 0 behind a colon, with the trace ended there. -/
def traceMasks [Platform] (before : Str) : Prop :=
  lineMasks (strip ((splitlines (before ++ ":0".toList)).getLastD []))

variable [UnicodePlatform]

theorem normalizeStackLine_eq (line : Str) : normalizeStackLine line =
    finishLine ((maskingRules.take 8).foldl (fun normalized s => reSub s.1 s.2 normalized)
      (strip (maskFrame line))) := by
  have whole : normalizeStackLine line = maskColons (normalizeMessage (maskFrame line)) := rfl
  rw [whole, normalizeMessage_eq, masked_take_drop]
  rfl

theorem normalizeStackLine_location {before : Str} (located : Located before)
    (line : '\n' ∉ before) :
    (lineMasks (before ++ ":0".toList) ∧ ∀ after, EndsNumber after → '\n' ∉ after →
      ∃ out, ∀ n, Numeral n → normalizeStackLine (numbered before n after) = out) ∨
    ¬ lineMasks (before ++ ":0".toList) ∧ ∃ front, ∀ after, EndsNumber after → '\n' ∉ after →
      ∃ rest, ∀ n, Numeral n → normalizeStackLine (numbered before n after) =
        front ++ ':' :: '<' :: (locationName n ++ '>' :: rest) := by
  obtain ⟨before₁, located₁, framed⟩ := maskFrame_location located line
  have zero : Numeral ['0'] := ⟨by decide, by decide⟩
  have none : EndsNumber [] := rfl
  have start : before ++ ":0".toList = numbered before ['0'] [] := rfl
  obtain ⟨empty, -, own, masked⟩ := framed [] none (by simp)
  obtain rfl := own rfl
  rcases swallows_or_keeps located₁.dropWhile with swallows | ⟨before₂, keeps⟩
  · have swallows₁ := (keeps_strip before₁).swallows swallows
    refine .inl ⟨?_, fun after ends line' => ?_⟩
    · obtain ⟨out, closed, same⟩ := swallows₁ [] none
      have last := closed rfl
      have taken := same ['0'] zero
      rw [Function.comp] at taken
      rw [lineMasks, start, masked ['0'] zero, taken, Option.mem_def.mp last]
      decide
    · obtain ⟨after₁, ends₁, -, each⟩ := framed after ends line'
      obtain ⟨out, -, same⟩ := swallows₁ after₁ ends₁
      refine ⟨finishLine out, fun n numeral => ?_⟩
      have taken := same n numeral
      rw [Function.comp] at taken
      rw [normalizeStackLine_eq, each n numeral, taken]
  · have keeps₁ := (keeps_strip before₁).comp keeps
    refine .inr ⟨?_, ?_⟩
    · obtain ⟨after₂, -, nil, same⟩ := keeps₁ [] none
      have left := same ['0'] zero
      rw [Function.comp, nil rfl] at left
      rw [lineMasks, start, masked ['0'] zero, left, numbered]
      simp
    · obtain ⟨front, named⟩ := finishLine_numbered before₂
      refine ⟨front, fun after ends line' => ?_⟩
      obtain ⟨after₁, ends₁, -, each⟩ := framed after ends line'
      obtain ⟨after₂, ends₂, -, same⟩ := keeps₁ after₁ ends₁
      obtain ⟨rest, whole⟩ := named after₂ ends₂.wordAt
      refine ⟨rest, fun n numeral => ?_⟩
      have left := same n numeral
      rw [Function.comp] at left
      rw [normalizeStackLine_eq, each n numeral, left, whole n numeral]

end Lines

section Commas
variable [UnicodePlatform]

/-- The rules read no comma. -/
theorem masked_comma (u v : Str) :
    maskingRules.foldl (fun normalized s => reSub s.1 s.2 normalized) (u ++ ',' :: v) =
      maskingRules.foldl (fun normalized s => reSub s.1 s.2 normalized) u ++
        ',' :: maskingRules.foldl (fun normalized s => reSub s.1 s.2 normalized) v := by
  have outside : isWord ',' = false := by
    rw [isWord, Platform.isAlnum_ascii ',' (by decide)]
    decide
  have unread : ∀ rule ∈ maskingRules, ∀ k ∈ rule.1.classes ++ rule.1.lookbehind,
      k.avoids ',' = true := by decide
  have groups : ∀ rule ∈ maskingRules, OfGroups rule.2 := by
    simp only [maskingRules, substitutions, List.take, List.forall_mem_cons, List.not_mem_nil,
      false_implies, implies_true, and_true]
    have fixed (w : String) : OfGroups (fixedText w) := fun _ _ _ => rfl
    exact ⟨fixed _, fixed _, fixed _, fixed _, fixed _, fixed _, ofGroups_label _,
      ofGroups_label _, fixed _, fixed _⟩
  have each : ∀ rules : List (Pattern CharClass × (Cursor Char → Str)), rules ⊆ maskingRules →
      ∀ u v, rules.foldl (fun normalized s => reSub s.1 s.2 normalized) (u ++ ',' :: v) =
        rules.foldl (fun normalized s => reSub s.1 s.2 normalized) u ++
          ',' :: rules.foldl (fun normalized s => reSub s.1 s.2 normalized) v := by
    intro rules
    induction rules with
    | nil => exact fun _ _ _ => rfl
    | cons rule rules ih =>
      intro within u v
      rw [List.cons_subset] at within
      have split : reSub rule.1 rule.2 (u ++ ',' :: v) =
          reSub rule.1 rule.2 u ++ ',' :: reSub rule.1 rule.2 v := by
        refine sub_barrier (groups rule within.1) outside (fun k hk => ?_) fun k hk => ?_
        · exact CharClass.test_of_avoids (by decide)
            (unread rule within.1 k (List.mem_append_right _ hk))
        · exact CharClass.test_of_avoids (by decide)
            (unread rule within.1 k (List.mem_append_left _ hk))
      rw [List.foldl_cons, List.foldl_cons, List.foldl_cons, split, ih within.2]
  exact each maskingRules (List.Subset.refl _) u v

omit [UnicodePlatform] in
theorem mem_line {n : Str} (numeral : Numeral n) :
    ∀ c ∈ " line ".toList ++ n, c ∈ " line0123456789".toList := by
  intro c hc
  rcases List.mem_append.mp hc with literal | digit
  · have within : ∀ c ∈ " line ".toList, c ∈ " line0123456789".toList := by decide
    exact within c literal
  · have within : ∀ c ∈ "0123456789".toList, c ∈ " line0123456789".toList := by decide
    exact within c (digit_cases (numeral.digits c digit))

theorem requestId_line {n : Str} (numeral : Numeral n) :
    reSub Patterns.requestId (fun d => d.groupText 1 ++ ":<request_id>".toList)
      (" line ".toList ++ n) = " line ".toList ++ n := by
  have avoids : ∀ k ∈ Patterns.requestId.firsts, ∀ c ∈ " line0123456789".toList,
      k.avoids c = true := by decide
  have ascii : ∀ c ∈ " line0123456789".toList, IsAscii c := by decide
  refine sub_eq_self (by decide) ?_
  rintro ⟨front, u, rest, split, reads⟩
  have long : 0 < u.length := lt_of_lt_of_le (by decide) reads.least_le
  obtain ⟨c, u, rfl⟩ := List.exists_cons_of_ne_nil (List.length_pos_iff.mp long)
  obtain ⟨k, hk, passes⟩ := reads.firsts c rfl
  have inside := mem_line numeral c (by rw [split]; simp)
  rw [CharClass.test_of_avoids (ascii c inside) (avoids k hk c inside)] at passes
  cases passes

theorem labelNumber_line {n : Str} (numeral : Numeral n) :
    reSub Patterns.labelNumber (fun d => d.groupText 1 ++ "=<id>".toList)
      (" line ".toList ++ n) = " line=<id>".toList := by
  obtain ⟨d, found, done, group⟩ : ∃ d, first CharClass.test isWord Patterns.labelNumber
      { before := [], after := "line".toList ++ ([' '] ++ (n ++ [])) } = some d ∧
        d.after = [] ∧ d.groupText 1 = "line".toList := first_labelNumber
    ⟨by decide, rfl, by simp, by simp [IsSeparator], numeral.some,
      fun c hc => isDecimal_of_isDigit (numeral.digits c hc), rfl⟩
  have blank : reSub Patterns.labelNumber (fun d => d.groupText 1 ++ "=<id>".toList)
      (' ' :: ("line ".toList ++ n)) = ' ' :: reSub Patterns.labelNumber
        (fun d => d.groupText 1 ++ "=<id>".toList) ("line ".toList ++ n) :=
    wordRule_labelNumber.subFrom_cons (ofGroups_label _) (isWord_mark (by simp)) [] _
  have shape : "line".toList ++ ([' '] ++ (n ++ [])) = "line ".toList ++ n := by simp
  rw [shape] at found
  have own : reSub Patterns.labelNumber (fun d => d.groupText 1 ++ "=<id>".toList)
      ("line ".toList ++ n) = "line=<id>".toList := by
    rw [reSub, sub, subFrom_hit _ found (first_shorter (by decide) found), done, group]
    rfl
  exact blank.trans (congrArg _ own)

theorem hexRun_line :
    reSub Patterns.hexRun (fixedText "<hex>") " line=<id>".toList = " line=<id>".toList := by
  refine sub_eq_self (by decide) ?_
  rintro ⟨front, u, rest, split, reads⟩
  have long : 12 ≤ u.length := reads.least_le
  have short := congrArg List.length split
  simp only [List.length_append] at short
  have own : " line=<id>".toList.length = 10 := rfl
  omega

theorem longNumber_line :
    reSub Patterns.longNumber (fixedText "<number>") " line=<id>".toList =
      " line=<id>".toList := by
  refine reSub_missing (k := .decimal) (by decide) (List.mem_singleton_self _) fun c hc => ?_
  have plain : ∀ c ∈ " line=<id>".toList, IsAscii c ∧ c.isDigit = false := by decide
  exact (Platform.isDecimal_ascii c (plain c hc).1).trans (plain c hc).2

/-- The label rule takes the number of a frame. -/
theorem masked_line {n : Str} (numeral : Numeral n) :
    maskingRules.foldl (fun normalized s => reSub s.1 s.2 normalized) (" line ".toList ++ n) =
      " line=<id>".toList := by
  have keeps {p : Pattern CharClass} {w : String} (some : 0 < p.least) {c : Char}
      (required : p.required.any (CharClass.isLit c) = true)
      (missing : c ∉ " line0123456789".toList) :
      reSub p (fixedText w) (" line ".toList ++ n) = " line ".toList ++ n := by
    obtain ⟨k, hk, isLit⟩ := List.any_eq_true.mp required
    refine reSub_missing some hk fun x hx => Bool.eq_false_iff.mpr fun passes => ?_
    rw [(test_isLit isLit x).mp passes] at hx
    exact missing (mem_line numeral c hx)
  have rules : maskingRules = [(Patterns.uuid, fixedText "<uuid>"),
      (Patterns.isoTimestamp, fixedText "<timestamp>"), (Patterns.isoDate, fixedText "<date>"),
      (Patterns.email, fixedText "<email>"), (Patterns.ip, fixedText "<ip>"),
      (Patterns.memoryAddress, fixedText "<memory_address>"),
      (Patterns.requestId, fun d => d.groupText 1 ++ ":<request_id>".toList),
      (Patterns.labelNumber, fun d => d.groupText 1 ++ "=<id>".toList),
      (Patterns.hexRun, fixedText "<hex>"), (Patterns.longNumber, fixedText "<number>")] := rfl
  rw [rules]
  simp only [List.foldl_cons, List.foldl_nil]
  rw [keeps (c := '-') (by decide) (by decide) (by decide),
    keeps (c := '-') (by decide) (by decide) (by decide),
    keeps (c := '-') (by decide) (by decide) (by decide),
    keeps (c := '@') (by decide) (by decide) (by decide),
    keeps (c := '.') (by decide) (by decide) (by decide),
    keeps (c := 'x') (by decide) (by decide) (by decide), requestId_line numeral,
    labelNumber_line numeral, hexRun_line, longNumber_line]

theorem solidEnds_line (n : Str) : SolidEnds (',' :: (" line ".toList ++ (n ++ [',']))) := by
  have comma : Platform.isSpace ',' = false := Platform.isSpace_ascii ',' (by decide)
  refine ⟨List.cons_ne_nil _ _, by simpa using comma, fun c hc => ?_⟩
  have last : (',' :: (" line ".toList ++ n)) ++ [','] =
      ',' :: (" line ".toList ++ (n ++ [','])) := by simp
  rw [← last, List.getLast?_concat] at hc
  obtain rfl := Option.some.inj hc
  exact comma

/-- The number behind `line` in a frame is not in the normal form of its line. -/
theorem normalizeStackLine_line {front rest : Str} (line : '\n' ∉ front ++ rest) :
    ∃ out, ∀ n, Numeral n →
      normalizeStackLine (front ++ (", line ".toList ++ (n ++ ',' :: rest))) = out := by
  have whole (text : Str) :
      normalizeStackLine text = maskColons (normalizeMessage (maskFrame text)) :=
    rfl
  rcases maskFrame_line line with ⟨out, same⟩ | ⟨front', rest', same⟩
  · exact ⟨_, fun n numeral => by rw [whole, same n numeral]⟩
  · let rules := maskingRules.foldl fun normalized s => reSub s.1 s.2 normalized
    let out := rules (front'.dropWhile Platform.isSpace) ++ ',' :: (" line=<id>".toList ++
      ',' :: rules (rest'.reverse.dropWhile Platform.isSpace).reverse)
    have each {n : Str} (numeral : Numeral n) :
        masked (front' ++ (", line ".toList ++ (n ++ ',' :: rest'))) = out := by
      have shape : front' ++ (", line ".toList ++ (n ++ ',' :: rest')) =
          front' ++ ((',' :: (" line ".toList ++ (n ++ [',']))) ++ rest') := by simp
      have split (u v : Str) : u ++ ((',' :: (" line ".toList ++ (n ++ [',']))) ++ v) =
          u ++ ',' :: ((" line ".toList ++ n) ++ ',' :: v) := by simp
      rw [masked, shape, (solidEnds_line n).strip_append, split, masked_comma, masked_comma,
        masked_line numeral]
    exact ⟨maskColons (strip (collapse out)), fun n numeral => by
      rw [whole, same n numeral, normalizeMessage_eq, each numeral, collapse]⟩

end Commas

section Traces
variable [UnicodePlatform]

/-- What stands in one line of a trace is normalised in its line. -/
theorem normalizeStackTrace_around (before : Str) : ∃ normalized done line,
    before = done ++ line ∧ LineStart done ∧ OneLine line ∧
    (traceMasks before ↔ lineMasks (line.dropWhile Platform.isSpace ++ ":0".toList)) ∧
    ∀ after, ∃ rest normalized', OneLine rest ∧ rest <+: after ∧
      ∀ x, SolidEnds x → OneLine x → normalizeStackTrace (some (before ++ (x ++ after))) =
        normalized ++ (normalizeStackLine (line.dropWhile Platform.isSpace ++ (x ++ rest)) ++
          normalized') := by
  obtain ⟨lines, done, line, split, start, inside, each⟩ :=
    splitlinesFrom_front [] before (by simp [OneLine])
  have stops {x : Str} (some : x ≠ []) (own : OneLine x) (after : Str) :
      ∀ c ∈ (x ++ after).head?, isLineEnd c = false := by
    intro c hc
    rw [List.head?_append_of_ne_nil _ some] at hc
    exact own c (List.mem_of_head? hc)
  let normal (lines : List Str) : List Str :=
    ((lines.map strip).filter fun line => !line.isEmpty).map normalizeStackLine
  refine ⟨((normal lines).map (· ++ ['\n'])).flatten, done, line, split, start, inside, ?_,
    fun after => ?_⟩
  · have zero : OneLine ":0".toList := by unfold OneLine; decide
    have last : splitlines (before ++ ":0".toList) = lines ++ [line ++ ":0".toList] := by
      have whole := each ":0".toList fun c hc => zero c (List.mem_of_head? hc)
      have open' := splitlinesFrom_inside zero line.reverse []
      rw [List.append_nil] at open'
      rw [splitlines, whole, open']
      simp [splitlinesFrom]
    have ends : SolidEnds ":0".toList := by
      refine ⟨by decide, fun c hc => ?_, fun c hc => ?_⟩
      · obtain rfl := Option.some.inj hc
        exact Platform.isSpace_ascii ':' (by decide)
      · obtain rfl := Option.some.inj hc
        exact Platform.isSpace_ascii '0' (by decide)
    have stripped := ends.strip_append line []
    rw [List.append_nil] at stripped
    rw [traceMasks, last, List.getLastD_concat, stripped]
    rfl
  · obtain ⟨rest, lines', own, prefixed, open'⟩ := splitlinesFrom_open after
    have tail : (rest.reverse.dropWhile Platform.isSpace).reverse <+: rest := by
      have ends := List.reverse_prefix.mpr (List.dropWhile_suffix (l := rest.reverse)
        Platform.isSpace)
      rwa [List.reverse_reverse] at ends
    refine ⟨(rest.reverse.dropWhile Platform.isSpace).reverse,
      ((normal lines').map (['\n'] ++ ·)).flatten, fun c hc => own c (tail.subset hc),
      tail.trans prefixed, fun x ends oneLine => ?_⟩
    have whole : splitlines (before ++ (x ++ after)) =
        lines ++ (line ++ (x ++ rest)) :: lines' := by
      rw [splitlines, each _ (stops ends.some oneLine after), splitlinesFrom_inside oneLine,
        open' _ (by simp [ends.some])]
      simp
    have some : (!(strip (line ++ (x ++ rest))).isEmpty) = true := by
      rw [ends.strip_append]
      simp [ends.some]
    have normalLines : normal (lines ++ (line ++ (x ++ rest)) :: lines') =
        normal lines ++ normalizeStackLine (strip (line ++ (x ++ rest))) :: normal lines' := by
      simp only [normal, List.map_append, List.filter_append, List.map_cons, List.filter_cons, some,
        if_true]
    have trace : normalizeStackTrace (Option.some (before ++ (x ++ after))) =
        joinWith ['\n'] (normal (splitlines (before ++ (x ++ after)))) := rfl
    rw [trace, whole, normalLines, joinWith_append, ends.strip_append]

end Traces

section Numbers
variable [UnicodePlatform]

omit [UnicodePlatform] in
theorem Numeral.oneLine {n : Str} (numeral : Numeral n) : OneLine n := by
  have table : ∀ c ∈ "0123456789".toList, isLineEnd c = false := by decide
  exact fun c hc => table c (digit_cases (numeral.digits c hc))

/-- A location stands in one line. -/
theorem Located.line {done line : Str} (located : Located (done ++ line)) (start : LineStart done) :
    Located line := by
  have ending {w : Str} (plain : NoDigitEnd (done ++ w)) : NoDigitEnd w := by
    cases w with
    | nil => simp [NoDigitEnd]
    | cons c w => exact (noDigitEnd_append (List.cons_ne_nil c w)).mp plain
  rcases located with plain | ⟨path, n, split, plain, numeral⟩
  · exact .inl (ending plain)
  · rw [List.append_eq_append_iff] at split
    rcases split with ⟨w, rfl, rfl⟩ | ⟨w, rfl, behind⟩
    · exact .inr ⟨w, n, rfl, ending plain, numeral⟩
    · obtain rfl | ⟨w, c, rfl⟩ := List.eq_nil_or_concat' w
      · exact .inr ⟨[], n, behind.symm, by simp [NoDigitEnd], numeral⟩
      · have ends := start c (by rw [← List.append_assoc]; exact List.getLast?_concat)
        have inside : c ∈ ':' :: n := by
          rw [behind]
          simp
        rcases List.mem_cons.mp inside with rfl | digit
        · exact absurd ends (by decide)
        · rw [numeral.oneLine c digit] at ends
          cases ends

/-- The number of a location has its name in the normal form of the trace, or a label rule
takes it. -/
theorem normalizeStackTrace_location {before : Str} (located : Located before) :
    (traceMasks before ∧ ∀ after, EndsNumber after → ∃ out, ∀ n, Numeral n →
      normalizeStackTrace (some (numbered before n after)) = out) ∨
    ¬ traceMasks before ∧ ∃ front, ∀ after, EndsNumber after → ∃ rest, ∀ n, Numeral n →
      normalizeStackTrace (some (numbered before n after)) =
        front ++ ':' :: '<' :: (locationName n ++ '>' :: rest) := by
  obtain ⟨normalized, done, line, split, start, own, masks, each⟩ :=
    normalizeStackTrace_around before
  have located' := (split ▸ located).line start
  have inside : '\n' ∉ line.dropWhile Platform.isSpace := fun newline =>
    own.no_newline ((List.dropWhile_sublist _).subset newline)
  have colon : Platform.isSpace ':' = false := Platform.isSpace_ascii ':' (by decide)
  have ends {n : Str} (numeral : Numeral n) : SolidEnds (':' :: n) := by
    refine ⟨List.cons_ne_nil _ n, by simpa using colon, fun x hx => ?_⟩
    rcases List.mem_cons.mp (List.mem_of_getLast? hx) with rfl | digit
    · exact colon
    · exact numeral.solid x digit
  have oneLine {n : Str} (numeral : Numeral n) : OneLine (':' :: n) :=
    List.forall_mem_cons.mpr ⟨by decide, numeral.oneLine⟩
  have trace {after rest normalized' : Str} {n : Str} (numeral : Numeral n)
      (whole : ∀ x, SolidEnds x → OneLine x → normalizeStackTrace (some (before ++ (x ++ after))) =
        normalized ++ (normalizeStackLine (line.dropWhile Platform.isSpace ++ (x ++ rest)) ++
          normalized')) : normalizeStackTrace (some (numbered before n after)) = normalized ++
            (normalizeStackLine (numbered (line.dropWhile Platform.isSpace) n rest) ++
              normalized') := whole (':' :: n) (ends numeral) (oneLine numeral)
  rcases normalizeStackLine_location located'.dropWhile inside with
    ⟨masked, swallows⟩ | ⟨free, front, named⟩
  · refine .inl ⟨masks.mpr masked, fun after stops => ?_⟩
    obtain ⟨rest, normalized', own', ⟨z, prefixed⟩, whole⟩ := each after
    obtain ⟨out, same⟩ := swallows rest (prefixed ▸ stops).of_append own'.no_newline
    exact ⟨normalized ++ (out ++ normalized'), fun n numeral => by
      rw [trace numeral whole, same n numeral]⟩
  · refine .inr ⟨fun masked => free (masks.mp masked), normalized ++ front, fun after stops => ?_⟩
    obtain ⟨rest, normalized', own', ⟨z, prefixed⟩, whole⟩ := each after
    obtain ⟨rest', same⟩ := named rest (prefixed ▸ stops).of_append own'.no_newline
    refine ⟨rest' ++ normalized', fun n numeral => ?_⟩
    rw [trace numeral whole, same n numeral]
    simp

/-- The number of a frame is not in the normal form of the trace. -/
theorem normalizeStackTrace_line (front rest : Str) : ∃ out, ∀ n, Numeral n →
    normalizeStackTrace (some (front ++ (", line ".toList ++ (n ++ ',' :: rest)))) = out := by
  obtain ⟨normalized, done, line, -, -, own, -, each⟩ := normalizeStackTrace_around front
  obtain ⟨rest', normalized', own', -, whole⟩ := each rest
  have inside : '\n' ∉ line.dropWhile Platform.isSpace ++ rest' := by
    rw [List.mem_append, not_or]
    exact ⟨fun newline => own.no_newline ((List.dropWhile_sublist _).subset newline),
      own'.no_newline⟩
  obtain ⟨out, same⟩ := normalizeStackLine_line inside
  refine ⟨normalized ++ (out ++ normalized'), fun n numeral => ?_⟩
  have oneLine : OneLine (',' :: (" line ".toList ++ (n ++ [',']))) := by
    have literal : ∀ c ∈ " line ,".toList, isLineEnd c = false := by decide
    intro c hc
    simp only [List.mem_cons, List.mem_append, List.not_mem_nil, or_false] at hc
    rcases hc with rfl | blank | digit | rfl
    · decide
    · exact literal c ((by decide : " line ".toList ⊆ " line ,".toList) blank)
    · exact numeral.oneLine c digit
    · decide
  have shape (u v : Str) : u ++ (", line ".toList ++ (n ++ ',' :: v)) =
      u ++ ((',' :: (" line ".toList ++ (n ++ [',']))) ++ v) := by simp
  rw [shape, whole _ (solidEnds_line n) oneLine, ← shape, same n numeral]

end Numbers

section Pairs

/-- A number of a trace, the one in its place in another trace, and the text behind it. -/
structure NumberPair where
  left : Str
  right : Str
  behind : Str

/-- The rest of a trace, with one of the numbers of each pair. -/
def withNumbers (number : NumberPair → Str) (pairs : List NumberPair) : Str :=
  (pairs.map fun p => number p ++ p.behind).flatten

variable [Platform]

/-- Where a line or column number stands: in a location `P:N` or `P:N:M`, or in a frame. -/
inductive NumberPlace : Str → Str → Prop
  | location {before after : Str} (located : Located before) (ends : EndsNumber after) :
    NumberPlace (before ++ [':']) after
  | frame (front path function : Str) :
    NumberPlace (front ++ frameHead path) (", in ".toList ++ function)

/-- The pairs are numbers of locations and frames. -/
inductive SameButNumbers : Str → List NumberPair → Prop
  | nil (before : Str) : SameButNumbers before []
  | cons {before : Str} {p : NumberPair} {pairs : List NumberPair} (left : Numeral p.left)
    (right : Numeral p.right)
    (place : NumberPlace before (p.behind ++ withNumbers NumberPair.left pairs))
    (rest : SameButNumbers (before ++ (p.left ++ p.behind)) pairs) :
    SameButNumbers before (p :: pairs)

/-- The numbers of each location have one name, or a label rule takes them. -/
def MaskedAlike (before : Str) : List NumberPair → Prop
  | [] => True
  | p :: pairs =>
    (∀ path, before = path ++ [':'] →
      traceMasks path ∨ locationName p.left = locationName p.right) ∧
    MaskedAlike (before ++ (p.left ++ p.behind)) pairs

omit [Platform] in
theorem withNumbers_cons (number : NumberPair → Str) (p : NumberPair) (pairs : List NumberPair) :
    withNumbers number (p :: pairs) = number p ++ (p.behind ++ withNumbers number pairs) := by
  simp [withNumbers]

theorem SameButNumbers.head {before : Str} {pairs : List NumberPair}
    (same : SameButNumbers before pairs) : pairs = [] ∨ ∃ c d rest rest',
      c.isDigit = true ∧ d.isDigit = true ∧ withNumbers NumberPair.left pairs = c :: rest ∧
        withNumbers NumberPair.right pairs = d :: rest' := by
  cases same with
  | nil => exact .inl rfl
  | @cons _ p pairs left right _ _ =>
    obtain ⟨c, n, split⟩ := List.exists_cons_of_ne_nil left.some
    obtain ⟨d, m, split'⟩ := List.exists_cons_of_ne_nil right.some
    refine .inr ⟨c, d, n ++ (p.behind ++ withNumbers NumberPair.left pairs),
      m ++ (p.behind ++ withNumbers NumberPair.right pairs), left.digits c (by simp [split]),
      right.digits d (by simp [split']), ?_, ?_⟩
    · rw [withNumbers_cons, split, List.cons_append]
    · rw [withNumbers_cons, split', List.cons_append]

end Pairs

section Traces
variable [UnicodePlatform]

theorem SameButNumbers.ends {before behind : Str} {pairs : List NumberPair}
    (same : SameButNumbers before pairs)
    (ends : EndsNumber (behind ++ withNumbers NumberPair.left pairs)) :
    EndsNumber (behind ++ withNumbers NumberPair.right pairs) := by
  rcases same.head with rfl | ⟨c, d, rest, rest', digit, -, left, right⟩
  · exact ends
  · have word : isWord c = true := by
      rw [isWord, UnicodePlatform.isAlnum_of_isDecimal c (isDecimal_of_isDigit digit), Bool.true_or]
    have other : c ∉ pathSigns := fun sign => by
      rw [isWord_pathSigns sign] at word
      cases word
    rw [left] at ends
    rw [right]
    have kept : behind.dropWhile (· ∈ pathSigns) ≠ [] := by
      intro none
      rw [EndsNumber, List.dropWhile_append, none] at ends
      simp [other, word, wordAt] at ends
    rw [EndsNumber, List.dropWhile_append, if_neg (by simpa using kept),
      wordAt_append_of_ne_nil kept] at ends ⊢
    exact ends

theorem SameButNumbers.place {before before' behind : Str} {pairs : List NumberPair}
    (same : SameButNumbers before' pairs)
    (place : NumberPlace before (behind ++ withNumbers NumberPair.left pairs)) :
    NumberPlace before (behind ++ withNumbers NumberPair.right pairs) := by
  generalize left_eq : behind ++ withNumbers NumberPair.left pairs = after at place
  cases place with
  | location located ends => exact .location located (same.ends (left_eq ▸ ends))
  | frame front path function =>
    rw [List.append_eq_append_iff] at left_eq
    rcases left_eq with ⟨z, split, left⟩ | ⟨z, rfl, -⟩
    · rcases same.head with rfl | ⟨c, d, rest, rest', digit, -, left', -⟩
      · have whole : behind ++ withNumbers NumberPair.right [] = ", in ".toList ++ function := by
          rw [split, List.append_assoc, ← left]
          rfl
        rw [whole]
        exact .frame front path function
      · rw [left'] at left
        cases z with
        | nil =>
          rw [List.append_nil] at split
          rw [← split]
          exact .frame front path _
        | cons e z =>
          obtain ⟨rfl, -⟩ := List.cons.inj left
          have plain : ∀ c ∈ ", in ".toList, c.isDigit = false := by decide
          rw [plain c (by rw [split]; simp)] at digit
          cases digit
    · rw [List.append_assoc]
      exact .frame front path _

/-- Behind a colon stands the number of a location, behind `line` the one of a frame. -/
theorem NumberPlace.behind {before after : Str} (place : NumberPlace before after) :
    (∃ path, before = path ++ [':'] ∧ Located path ∧ EndsNumber after) ∨
      ∃ front rest, before = front ++ ", line ".toList ∧ after = ',' :: rest := by
  cases place with
  | @location path _ located ends => exact .inl ⟨path, rfl, located, ends⟩
  | frame front path function =>
    exact .inr ⟨front ++ ("File \"".toList ++ (path ++ ['"'])), _, by simp [frameHead], rfl⟩

/-- In one place each number is written over alike, or each has its name in the normal form. -/
theorem NumberPlace.masked {before after₀ : Str} (place : NumberPlace before after₀) :
    ((∀ path, before = path ++ [':'] → traceMasks path) ∧ ∀ after, NumberPlace before after →
      ∃ out, ∀ n, Numeral n → normalizeStackTrace (some (before ++ (n ++ after))) = out) ∨
    (∃ path, before = path ++ [':'] ∧ ¬ traceMasks path) ∧ ∃ front, ∀ after,
      NumberPlace before after → ∃ rest, ∀ n, Numeral n →
        normalizeStackTrace (some (before ++ (n ++ after))) =
          front ++ ':' :: '<' :: (locationName n ++ '>' :: rest) := by
  have apart {path front : Str} (same : path ++ [':'] = front ++ ", line ".toList) : False := by
    have last : front ++ ", line ".toList = (front ++ ", line".toList) ++ [' '] := by simp
    rw [last] at same
    exact absurd (List.append_inj' same rfl).2 (by decide)
  rcases place.behind with ⟨path, rfl, located, -⟩ | ⟨front, _, rfl, -⟩
  · have shape (n after : Str) : path ++ [':'] ++ (n ++ after) = numbered path n after := by
      simp [numbered]
    have ends {after : Str} (place : NumberPlace (path ++ [':']) after) : EndsNumber after := by
      rcases place.behind with ⟨_, -, -, ends⟩ | ⟨front, rest, same, -⟩
      · exact ends
      · exact (apart same).elim
    simp only [shape]
    rcases normalizeStackTrace_location located with ⟨masks, each⟩ | ⟨free, front, each⟩
    · refine .inl ⟨fun path' same => ?_, fun after place' => each after (ends place')⟩
      rwa [← (List.append_inj' same rfl).1]
    · exact .inr ⟨⟨path, rfl, free⟩, front, fun after place' => each after (ends place')⟩
  · refine .inl ⟨fun path same => (apart same.symm).elim, fun after place' => ?_⟩
    rcases place'.behind with ⟨path, same, -⟩ | ⟨_, rest, -, rfl⟩
    · exact (apart same.symm).elim
    · obtain ⟨out, same⟩ := normalizeStackTrace_line front rest
      exact ⟨out, fun n numeral => by rw [List.append_assoc, same n numeral]⟩

omit [UnicodePlatform] in
theorem locationName_clear (n : Str) : ∀ c ∈ locationName n, (c != '>') = true := by
  unfold locationName numeralName
  split
  · split <;> decide
  · decide

/-- The traces are normalised alike exactly where the numbers of each location are. -/
theorem normalizeStackTrace_iff {before : Str} {pairs : List NumberPair}
    (same : SameButNumbers before pairs) :
    normalizeStackTrace (some (before ++ withNumbers NumberPair.left pairs)) =
        normalizeStackTrace (some (before ++ withNumbers NumberPair.right pairs)) ↔
      MaskedAlike before pairs := by
  induction same with
  | nil before => simp [MaskedAlike, withNumbers]
  | @cons before p pairs left right place rest ih =>
    let after := p.behind ++ withNumbers NumberPair.right pairs
    -- the rest differs as with the first number of the left trace in both
    have onward (alike : normalizeStackTrace (some (before ++ (p.right ++ after))) =
        normalizeStackTrace (some (before ++ (p.left ++ after)))) :
        normalizeStackTrace (some (before ++ withNumbers NumberPair.left (p :: pairs))) =
            normalizeStackTrace (some (before ++ withNumbers NumberPair.right (p :: pairs))) ↔
          MaskedAlike (before ++ (p.left ++ p.behind)) pairs := by
      rw [← ih, withNumbers_cons, withNumbers_cons, alike]
      simp only [after, List.append_assoc]
    have place' : NumberPlace before after := rest.place place
    rcases place.masked with ⟨masks, each⟩ | ⟨⟨path, split, free⟩, front, each⟩
    · obtain ⟨out, same⟩ := each after place'
      rw [onward (by rw [same _ right, same _ left]), MaskedAlike]
      exact ⟨fun rest => ⟨fun path colon => .inl (masks path colon), rest⟩, fun both => both.2⟩
    · obtain ⟨rest₂, same₂⟩ := each after place'
      by_cases name : locationName p.left = locationName p.right
      · rw [onward (by rw [same₂ _ right, same₂ _ left, name]), MaskedAlike]
        exact ⟨fun rest => ⟨fun _ _ => .inr name, rest⟩, fun both => both.2⟩
      · obtain ⟨rest₁, same₁⟩ := each _ place
        rw [MaskedAlike]
        refine ⟨fun equal => absurd ?_ name, fun both => ((both.1 path split).elim free name).elim⟩
        rw [withNumbers_cons, withNumbers_cons, same₁ _ left, same₂ _ right] at equal
        have tails := (List.cons.inj (List.cons.inj (List.append_cancel_left equal)).2).2
        exact (first_split_unique (P := (· != '>')) (by simp) (by simp) (locationName_clear _)
          (locationName_clear _) tails).1

/-- The traces have one normal form exactly where the numbers of each location are masked
alike, and then one fingerprint. -/
theorem stack_fingerprint_iff {before : Str} {pairs : List NumberPair}
    (same : SameButNumbers before pairs) :
    (normalizeStackTrace (some (before ++ withNumbers NumberPair.left pairs)) =
        normalizeStackTrace (some (before ++ withNumbers NumberPair.right pairs)) ↔
      MaskedAlike before pairs) ∧
    (MaskedAlike before pairs → ∀ payload : FingerprintInput,
      generateFingerprint
          { payload with stackTrace := some (before ++ withNumbers NumberPair.left pairs) } =
        generateFingerprint
          { payload with stackTrace := some (before ++ withNumbers NumberPair.right pairs) }) := by
  refine ⟨normalizeStackTrace_iff same, fun alike payload => ?_⟩
  have normal := (normalizeStackTrace_iff same).mpr alike
  simp only [generateFingerprint, fingerprintParts, normal]

end Traces

section Samples

theorem noDigitEnd_of_last [Platform] {s : Str} {c : Char} (last : s.getLast? = some c)
    (plain : Platform.isDecimal c = false) : NoDigitEnd s := by
  intro d hd
  rw [last] at hd
  obtain rfl := Option.some.inj hd
  exact plain

/-- A frame of Python and one of JavaScript, with other line numbers. -/
def shiftedLines : List NumberPair :=
  [⟨"7".toList, "123456".toList, ", in load\n    at run (app.js:".toList⟩,
    ⟨"42".toList, "1043".toList, ":".toList⟩, ⟨"5".toList, "18".toList, ")".toList⟩]

def shiftedTrace (number : NumberPair → Str) : Str :=
  "File \"app.py\", line ".toList ++ withNumbers number shiftedLines

theorem stack_fingerprint_iff_shiftedLines : letI := foldingPlatform
    normalizeStackTrace (some (shiftedTrace NumberPair.left)) =
        normalizeStackTrace (some (shiftedTrace NumberPair.right)) ∧
      generateFingerprint
          ⟨"api".toList, "failed".toList, none, some (shiftedTrace NumberPair.left)⟩ =
        generateFingerprint
          ⟨"api".toList, "failed".toList, none, some (shiftedTrace NumberPair.right)⟩ := by
  let _ := foldingPlatform
  have frame {before after path function : Str} (head : before = frameHead path)
      (tail : after = ", in ".toList ++ function) : NumberPlace before after := by
    rw [head, tail]
    exact .frame [] path function
  have location {before path after : Str} (split : before = path ++ [':']) (located : Located path)
      (ends : EndsNumber after) : NumberPlace before after := by
    rw [split]
    exact .location located ends
  let js := "File \"app.py\", line 7, in load\n    at run (app.js".toList
  have plain : NoDigitEnd js :=
    noDigitEnd_of_last (show js.getLast? = some 's' by decide) (by decide)
  have places : SameButNumbers "File \"app.py\", line ".toList shiftedLines := by
    refine .cons ⟨by decide, by decide⟩ ⟨by decide, by decide⟩ ?_
      (.cons ⟨by decide, by decide⟩ ⟨by decide, by decide⟩ ?_
        (.cons ⟨by decide, by decide⟩ ⟨by decide, by decide⟩ ?_ (.nil _)))
    · refine frame (?_ : _ = frameHead "app.py".toList)
        (?_ : _ = ", in ".toList ++ "load\n    at run (app.js:42:5)".toList) <;> decide
    · refine location (?_ : _ = js ++ [':']) (.inl plain) ?_
      · decide
      · unfold EndsNumber; decide
    · refine location (?_ : _ = (js ++ ':' :: "42".toList) ++ [':'])
        (.inr ⟨js, "42".toList, rfl, plain, by decide, by decide⟩) ?_
      · decide
      · unfold EndsNumber; decide
  have blank (path : Str) (colon : "File \"app.py\", line ".toList = path ++ [':']) : False := by
    have last := congrArg List.getLast? colon
    rw [List.getLast?_concat] at last
    exact absurd last (by decide)
  have alike : MaskedAlike "File \"app.py\", line ".toList shiftedLines :=
    ⟨fun path colon => (blank path colon).elim, fun _ _ => .inr rfl, fun _ _ => .inr rfl, trivial⟩
  obtain ⟨normal, fingerprint⟩ := stack_fingerprint_iff places
  exact ⟨normal.mpr alike, fingerprint alike ⟨"api".toList, "failed".toList, none, none⟩⟩

/-- A number of five digits has another name than one of two. -/
theorem stack_fingerprint_fails : letI := foldingPlatform
    ¬ ∀ before pairs, SameButNumbers before pairs →
      normalizeStackTrace (some (before ++ withNumbers NumberPair.left pairs)) =
        normalizeStackTrace (some (before ++ withNumbers NumberPair.right pairs)) := by
  let _ := foldingPlatform
  intro alike
  have located : Located "foo.js".toList :=
    .inl (noDigitEnd_of_last (show "foo.js".toList.getLast? = some 's' by decide) (by decide))
  have same := alike "foo.js:".toList [⟨"42".toList, "12345".toList, []⟩]
    (.cons ⟨by decide, by decide⟩ ⟨by decide, by decide⟩ (.location located rfl) (.nil _))
  exact absurd same (by decide)

end Samples

end LogLens
