import LogLens.LineNumbers
import LogLens.Renormalising

/-! A label rule takes the number of a location with the label before it, or leaves it. What
is left is masked by the number of its digits. -/

namespace LogLens
open BacktrackingRegex

section Labels
variable [UnicodePlatform] {p : Pattern CharClass} {replacement : Cursor Char → Str}

/-- A matcher begins nowhere in a word it does not read, whatever is before it. -/
theorem LabelRule.subFrom_behind (h : LabelRule p) (groups : OfGroups replacement) {text : Str}
    (stops : ∀ x ∈ text.head?, ∀ k ∈ p.firsts, k.test x = false) (before : Str) :
    subFrom CharClass.test isWord p replacement 0 before text = reSub p replacement text := by
  have blind (k : CharClass) (hk : k ∈ p.lookbehind) (x : Char) (_ : x ∈ before.head?) :
      k.test x = false := by simp [h.blind] at hk
  cases text with
  | nil => rfl
  | cons x text =>
    have stuck (before : Str) :
        first CharClass.test isWord p { before := before, after := x :: text } = none :=
      first_stuck h.progress (stops x rfl) before text
    have farther : subFrom CharClass.test isWord p replacement 0 ([x] ++ before) text =
        subFrom CharClass.test isWord p replacement 0 [x] text :=
      subFrom_onto blind groups 0 [x] text (.inr (.inl (List.cons_ne_nil x [])))
    rw [reSub, sub, subFrom_stuck replacement (stuck before), subFrom_stuck replacement (stuck [])]
    exact congrArg _ farther

/-- A rule whose matches begin with a word. -/
structure WordRule (p : Pattern CharClass) : Prop extends LabelRule p where
  starts : ∀ {before u after}, Reads CharClass.test isWord p before u after →
    wordAt isWord (u ++ after) = true

theorem WordRule.first_outside (h : WordRule p) {text : Str} (outside : wordAt isWord text = false)
    (before : Str) :
    first CharClass.test isWord p { before := before, after := text } = none := by
  refine first_eq_none_iff.mpr fun u after split reads => ?_
  have starts := h.starts reads
  rw [← show text = u ++ after from split, outside] at starts
  cases starts

theorem WordRule.subFrom_cons (h : WordRule p) (groups : OfGroups replacement) {c : Char}
    (outside : isWord c = false) (before text : Str) :
    subFrom CharClass.test isWord p replacement 0 before (c :: text) =
      c :: reSub p replacement text := by
  have farther : subFrom CharClass.test isWord p replacement 0 ([] ++ c :: before) text =
      subFrom CharClass.test isWord p replacement 0 [] text :=
    subFrom_onto (by simp [h.blind]) groups 0 [] text (.inr (.inr outside))
  have starts : wordAt isWord (c :: text) = false := outside
  have stuck := h.first_outside starts before
  rw [subFrom_stuck replacement stuck]
  exact congrArg _ farther

theorem WordRule.reSub_append (h : WordRule p) (groups : OfGroups replacement) {u : Str}
    (outside : ∀ c ∈ u, isWord c = false) (text : Str) :
    reSub p replacement (u ++ text) = u ++ reSub p replacement text := by
  induction u with
  | nil => rfl
  | cons c u ih =>
    rw [List.forall_mem_cons] at outside
    exact (h.subFrom_cons groups outside.1 [] (u ++ text)).trans (congrArg _ (ih outside.2))

theorem WordRule.subFrom_outside (h : WordRule p) (groups : OfGroups replacement) {text : Str}
    (outside : wordAt isWord text = false) (before : Str) :
    subFrom CharClass.test isWord p replacement 0 before text = reSub p replacement text := by
  cases text with
  | nil => rfl
  | cons c text =>
    exact (h.subFrom_cons groups outside before text).trans
      (h.subFrom_cons groups outside [] text).symm

theorem WordRule.subFrom_digits (h : WordRule p) (groups : OfGroups replacement) {n after : Str}
    (digits : ∀ c ∈ n, c.isDigit = true) (outside : wordAt isWord after = false) (before : Str) :
    subFrom CharClass.test isWord p replacement 0 before (n ++ after) =
      n ++ reSub p replacement after := by
  induction n generalizing before with
  | nil => exact h.subFrom_outside groups outside before
  | cons c n ih =>
    rw [List.forall_mem_cons] at digits
    have stuck : first CharClass.test isWord p { before := before, after := c :: (n ++ after) } =
        none :=
      first_stuck h.progress (fun k hk => not_digit_of_avoids (h.digit k hk) digits.1) before
        (n ++ after)
    rw [List.cons_append, subFrom_stuck replacement stuck, ih digits.2, List.cons_append]

theorem WordRule.ends (h : WordRule p) (groups : OfGroups replacement) {after : Str}
    (ends : EndsNumber after) : EndsNumber (reSub p replacement after) := by
  obtain ⟨signs, all, rfl | ⟨c, rest, rfl, here⟩⟩ := ends.cases
  · have same := h.reSub_append groups (fun c hc => isWord_pathSigns (all c hc)) []
    rw [List.append_nil] at same
    rw [same]
    simpa [reSub, sub, subFrom] using ends
  · rw [h.reSub_append groups fun c hc => isWord_pathSigns (all c hc)]
    have head : reSub p replacement (c :: rest) = c :: reSub p replacement rest :=
      h.subFrom_cons groups (isWord_of_endsLocation here) [] rest
    rw [head]
    exact endsNumber_append all here

/-- A number of a location, and what is behind it. -/
structure Numbered where
  n : Str
  after : Str
  numeral : Numeral n
  ends : EndsNumber after

def Numbered.text (i : Numbered) : Str := ':' :: (i.n ++ i.after)

theorem WordRule.swallows_or_keeps (h : WordRule p) {w : String}
    (placed : ∃ z, w.toList = z ++ ['>']) {stop : Str → Str} (nil : stop [] = [])
    (onward : ∀ (i : Numbered) before, subFrom CharClass.test isWord p
      (fun d => d.groupText 1 ++ w.toList) 0 before (stop i.after) =
        reSub p (fun d => d.groupText 1 ++ w.toList) (stop i.after))
    (reach : ∀ (front rest : Str) (i : Numbered) (d : Cursor Char), first CharClass.test isWord p
      { before := front, after := rest ++ i.text } = some d → d.after.length < i.text.length →
        ∃ label, ∀ i : Numbered, ∃ d, first CharClass.test isWord p
          { before := front, after := rest ++ i.text } = some d ∧ d.after = stop i.after ∧
            d.groupText 1 = label) (before : Str) :
    Swallows (reSub p fun d => d.groupText 1 ++ w.toList) before ∨
      Keeps (reSub p fun d => d.groupText 1 ++ w.toList) before
        (reSub p (fun d => d.groupText 1 ++ w.toList) before) := by
  have groups : OfGroups fun d : Cursor Char => d.groupText 1 ++ w.toList := by
    intro d e same
    simp only [Cursor.groupText, same]
  obtain ⟨z, hz⟩ := placed
  have place (front rest : Str) (_ : before = front ++ rest) (_ : rest ≠ []) :
      (∃ out, (∃ z, out = z ++ ['>']) ∧ ∀ i : Numbered, ∃ d, first CharClass.test isWord p
        { before := front.reverse ++ [], after := rest ++ i.text } = some d ∧
          d.after = stop i.after ∧ d.groupText 1 ++ w.toList = out) ∨
      ∀ (i : Numbered) d, first CharClass.test isWord p
        { before := front.reverse ++ [], after := rest ++ i.text } = some d →
          i.text.length ≤ d.after.length := by
    by_cases reached : ∃ (i : Numbered) (d : Cursor Char), first CharClass.test isWord p
        { before := front.reverse ++ [], after := rest ++ i.text } = some d ∧
          d.after.length < i.text.length
    · obtain ⟨i, d, found, beyond⟩ := reached
      obtain ⟨label, each⟩ := reach _ rest i d found beyond
      refine .inl ⟨label ++ w.toList, ⟨label ++ z, by rw [hz, List.append_assoc]⟩, fun i => ?_⟩
      obtain ⟨d, found, after, group⟩ := each i
      exact ⟨d, found, after, by rw [group]⟩
    · exact .inr fun i d found => le_of_not_gt fun beyond => reached ⟨i, d, found, beyond⟩
  have colon (i : Numbered) : wordAt isWord i.text = false := isWord_mark (by simp)
  rcases subFrom_reach h.progress groups colon (fun out => ∃ z, out = z ++ ['>']) before []
    place with
    ⟨out, last, ⟨y, rfl⟩, same⟩ | same
  · refine .inl fun after ends => ⟨out ++ (y ++ ['>']) ++
      reSub p (fun d => d.groupText 1 ++ w.toList) (stop after), ?_, fun n numeral => ?_⟩
    · rintro rfl
      rw [nil]
      simp [reSub, sub, subFrom]
    · obtain ⟨b, result⟩ := same ⟨n, after, numeral, ends⟩
      exact result.trans (congrArg _ (onward ⟨n, after, numeral, ends⟩ b))
  · refine .inr fun after ends => ⟨reSub p (fun d => d.groupText 1 ++ w.toList) after,
      h.ends groups ends, by rintro rfl; rfl, fun n numeral => ?_⟩
    have result := same ⟨n, after, numeral, ends⟩
    refine result.trans (congrArg _ ?_)
    refine (h.subFrom_cons groups (isWord_mark (by simp)) _ _).trans (congrArg _ ?_)
    exact h.subFrom_digits groups numeral.digits ends.wordAt []

theorem Numbered.outside (i : Numbered) : wordAt isWord i.after = false := i.ends.wordAt

theorem wordRule_requestId : WordRule Patterns.requestId where
  toLabelRule := labelRule_requestId
  starts reads := by
    obtain ⟨label, seps, id, rfl, here⟩ := reads_requestId.mp reads
    rw [List.append_assoc]
    exact (requestLabel_words here.label [] _).1

theorem wordRule_labelNumber : WordRule Patterns.labelNumber where
  toLabelRule := labelRule_labelNumber
  starts reads := by
    obtain ⟨label, seps, digits, rfl, here⟩ := reads_labelNumber.mp reads
    rw [List.append_assoc]
    exact (numberLabel_words here.label [] _).1

omit [UnicodePlatform] in
/-- A label has no colon. -/
theorem colon_not_mem {labels : List Str} (free : ∀ l ∈ labels, ':' ∉ l) {label : Str}
    (named : label.map foldCase ∈ labels) : ':' ∉ label := fun colon =>
  free _ named (List.mem_map.mpr ⟨':', colon, rfl⟩)

/-- A match beyond the colon of a number reads the text before it. -/
theorem Numbered.reads {x u after : Str} {i : Numbered} (split : x ++ i.text = u ++ after)
    (beyond : after.length < i.text.length) : ∃ m, u = x ++ ':' :: m := by
  rw [List.append_eq_append_iff] at split
  rcases split with ⟨z, rfl, past⟩ | ⟨z, -, rfl⟩
  · cases z with
    | nil => simp [past] at beyond
    | cons c z =>
      obtain ⟨rfl, -⟩ := List.cons.inj past
      exact ⟨z, rfl⟩
  · rw [List.length_append] at beyond
    omega

/-- Where a request id goes on behind a colon, it takes what is there, and the separators
before it are all that it can have. -/
theorem requestId_reach {front rest : Str} {i : Numbered} {d : Cursor Char}
    (found : first CharClass.test isWord Patterns.requestId
      { before := front, after := rest ++ i.text } = some d)
    (beyond : d.after.length < i.text.length) : ∃ label, ∀ i : Numbered, ∃ d,
      first CharClass.test isWord Patterns.requestId
        { before := front, after := rest ++ i.text } = some d ∧
      d.after = i.after.dropWhile Patterns.idChar.test ∧ d.groupText 1 = label := by
  obtain ⟨seps, id, split, here⟩ := requestIdAt_of_first found
  generalize d.groupText 1 = label at split here
  obtain ⟨x, rfl, past⟩ := append_cons_of_not_mem (colon_not_mem (by decide) here.label) split
  have ahead : x ++ i.text = (seps ++ id) ++ d.after := past.trans (List.append_assoc ..).symm
  obtain ⟨m, taken⟩ := Numbered.reads ahead beyond
  let line := x ++ [':']
  let separator (c : Char) : Bool := decide (IsSeparator c)
  have whole (text : Str) :
      line.takeWhile separator ++ (line.dropWhile separator ++ text) = line ++ text := by
    rw [← List.append_assoc, List.takeWhile_append_dropWhile]
  have ids : ∀ c ∈ line.dropWhile separator, Patterns.idChar.test c = true := by
    have prefixed : seps ++ id = line ++ m := by simpa [line] using taken
    rw [List.append_eq_append_iff] at prefixed
    rcases prefixed with ⟨z, line_eq, id_eq⟩ | ⟨z, seps_eq, -⟩
    · intro c hc
      rw [line_eq, List.dropWhile_append_of_pos (by simpa [separator] using here.seps)] at hc
      exact here.id c (by simp [id_eq, (List.dropWhile_sublist separator).subset hc])
    · have none : line.dropWhile separator = [] := List.dropWhile_eq_nil_iff.mpr fun c hc =>
        decide_eq_true (here.seps c (by simp [seps_eq, hc]))
      simp [none]
  have outside (rest : Str) : wordAt isWord (line ++ rest) = false := by
    have labelEnd := here.labelEnd
    rw [← List.append_assoc, ← ahead] at labelEnd
    cases x with
    | nil => exact isWord_mark (by simp)
    | cons c x => exact labelEnd
  have digits (i : Numbered) (c : Char) (hc : c ∈ i.n) := digit_table c
    (digit_cases (i.numeral.digits c hc))
  have text (i : Numbered) : (label ++ x) ++ i.text = label ++ (line.takeWhile separator ++
      ((line.dropWhile separator ++ (i.n ++ i.after.takeWhile Patterns.idChar.test)) ++
        i.after.dropWhile Patterns.idChar.test)) := by
    have after : i.after.takeWhile Patterns.idChar.test ++ i.after.dropWhile Patterns.idChar.test =
        i.after := List.takeWhile_append_dropWhile
    have shape : (label ++ x) ++ i.text = label ++ (line ++ (i.n ++ i.after)) := by
      simp [line, Numbered.text]
    rw [shape, ← whole, List.append_assoc, List.append_assoc, after]
  refine ⟨label, fun i => ?_⟩
  rw [text i]
  refine first_requestId ⟨here.label, here.start, ?_, fun c hc => ?_, ?_, ?_⟩ ?_ ?_
  · rw [List.append_assoc, whole]
    exact outside _
  · exact of_decide_eq_true (List.mem_takeWhile_imp (p := separator) hc)
  · simp [i.numeral.some]
  · simp only [List.forall_mem_append]
    refine ⟨ids, fun c hc => ?_, fun c hc => List.mem_takeWhile_imp hc⟩
    rw [test_ascii _ asciiPlatform _ c (digits i c hc).1, (digits i c hc).2.1]
  · intro c hc
    cases tail : line.dropWhile separator with
    | nil =>
      rw [tail, List.nil_append, List.head?_append_of_ne_nil _ i.numeral.some] at hc
      exact (digits i c (List.mem_of_mem_head? hc)).2.2.1
    | cons e tail' =>
      have stops := List.head?_dropWhile_not separator line
      rw [tail] at hc stops
      obtain rfl := Option.some.inj hc
      simpa [separator] using stops
  · intro c hc
    have stops := List.head?_dropWhile_not Patterns.idChar.test i.after
    rw [hc] at stops
    simpa using stops

theorem labelNumber_reach {front rest : Str} {i : Numbered} {d : Cursor Char}
    (found : first CharClass.test isWord Patterns.labelNumber
      { before := front, after := rest ++ i.text } = some d)
    (beyond : d.after.length < i.text.length) : ∃ label, ∀ i : Numbered, ∃ d,
      first CharClass.test isWord Patterns.labelNumber
        { before := front, after := rest ++ i.text } = some d ∧
      d.after = i.after ∧ d.groupText 1 = label := by
  obtain ⟨seps, digits, split, here⟩ := labelNumberAt_of_first found
  generalize d.groupText 1 = label at split here
  obtain ⟨x, rfl, past⟩ := append_cons_of_not_mem (colon_not_mem (by decide) here.label) split
  have ahead : x ++ i.text = (seps ++ digits) ++ d.after := past.trans (List.append_assoc ..).symm
  obtain ⟨m, taken⟩ := Numbered.reads ahead beyond
  have clear : ':' ∉ digits := fun colon => ne_colon_of_isDecimal (here.digits ':' colon) rfl
  have separators : ∀ c ∈ x ++ [':'], IsSeparator c := by
    rw [List.append_eq_append_iff] at taken
    rcases taken with ⟨z, -, digits_eq⟩ | ⟨z, rfl, -⟩
    · simp [digits_eq] at clear
    · rw [List.forall_mem_append, List.forall_mem_singleton]
      exact ⟨fun c hc => here.seps c (List.mem_append_left z hc), .inl rfl⟩
  refine ⟨label, fun i => ?_⟩
  have text : (label ++ x) ++ i.text = label ++ ((x ++ [':']) ++ (i.n ++ i.after)) := by
    simp [Numbered.text]
  rw [text]
  exact first_labelNumber ⟨here.label, here.start, by simp, separators, i.numeral.some,
    fun c hc => isDecimal_of_isDigit (i.numeral.digits c hc), i.outside⟩

omit [UnicodePlatform] in
theorem ofGroups_label (w : String) : OfGroups fun d : Cursor Char => d.groupText 1 ++ w.toList := by
  intro d e same
  simp only [Cursor.groupText, same]

theorem requestId_location (before : Str) :
    Swallows (reSub Patterns.requestId fun d => d.groupText 1 ++ ":<request_id>".toList) before ∨
      Keeps (reSub Patterns.requestId fun d => d.groupText 1 ++ ":<request_id>".toList) before
        (reSub Patterns.requestId (fun d => d.groupText 1 ++ ":<request_id>".toList) before) := by
  refine wordRule_requestId.swallows_or_keeps ⟨":<request_id".toList, rfl⟩ rfl (fun i front => ?_)
    (fun front rest i d => requestId_reach) before
  refine wordRule_requestId.subFrom_behind (ofGroups_label _) (fun x hx k hk => ?_) front
  -- the letters that a label begins with are in the class of the id
  have firsts : Patterns.requestId.firsts = [.letter 'r', .letter 'r', .letter 't'] := rfl
  have letters : ∀ x ∈ ['r', 'R', 't', 'T'], Patterns.idChar.test x = true := by
    have own : ∀ x ∈ ['r', 'R', 't', 'T'], IsAscii x ∧
        @CharClass.test asciiPlatform Patterns.idChar x = true := by decide
    intro x hx
    rw [test_ascii _ asciiPlatform _ x (own x hx).1, (own x hx).2]
  have stops := List.head?_dropWhile_not Patterns.idChar.test i.after
  rw [hx] at stops
  have unread : Patterns.idChar.test x = false := stops
  refine Bool.eq_false_iff.mpr fun passes => ?_
  have listed : x ∈ ['r', 'R', 't', 'T'] := by
    rw [firsts] at hk
    simp only [List.mem_cons, List.not_mem_nil, or_false] at hk
    rcases hk with rfl | rfl | rfl
    all_goals
      simp only [CharClass.test, caseFolds, Bool.or_eq_true, decide_eq_true_eq] at passes
      rcases passes with (rfl | rfl) | none
      · decide
      · decide
      · simp at none
  rw [letters x listed] at unread
  cases unread

theorem labelNumber_location (before : Str) :
    Swallows (reSub Patterns.labelNumber fun d => d.groupText 1 ++ "=<id>".toList) before ∨
      Keeps (reSub Patterns.labelNumber fun d => d.groupText 1 ++ "=<id>".toList) before
        (reSub Patterns.labelNumber (fun d => d.groupText 1 ++ "=<id>".toList) before) := by
  have nothing : (id : Str → Str) [] = [] := rfl
  exact wordRule_labelNumber.swallows_or_keeps ⟨"=<id".toList, rfl⟩ nothing
    (fun i => wordRule_labelNumber.subFrom_outside (ofGroups_label _) i.outside)
    (fun _ _ _ _ => labelNumber_reach) before

/-- Up to the label rules a number of a location is taken, whatever it is, or left. -/
theorem swallows_or_keeps {before : Str} (located : Located before) :
    Swallows ((maskingRules.take 8).foldl fun normalized s => reSub s.1 s.2 normalized) before ∨
      ∃ before', Keeps ((maskingRules.take 8).foldl fun normalized s => reSub s.1 s.2 normalized)
        before before' := by
  obtain ⟨values, keeps⟩ := keeps_values located
  have closes (text : Str) (last : '>' ∈ text.getLast?) : '>' ∈ (reSub Patterns.labelNumber
      (fun d => d.groupText 1 ++ "=<id>".toList) text).getLast? := by
    have closed : ∀ k ∈ Patterns.labelNumber.classes, k.avoids '>' = true := by decide
    have none : Patterns.labelNumber.lookbehind = [] := rfl
    obtain ⟨front, rfl⟩ := List.getLast?_eq_some_iff.mp last
    have split : reSub Patterns.labelNumber (fun d => d.groupText 1 ++ "=<id>".toList)
        (front ++ ['>']) = reSub Patterns.labelNumber (fun d => d.groupText 1 ++ "=<id>".toList)
          front ++ ['>'] := by
      refine sub_barrier (ofGroups_label _) (isWord_bracket (.inr rfl)) (by simp [none]) ?_
      exact fun k hk => CharClass.test_of_avoids (by decide) (closed k hk)
    rw [split]
    simp
  rcases requestId_location values with swallows | kept
  · exact .inl (keeps.swallows (swallows.comp closes))
  · rcases labelNumber_location (reSub Patterns.requestId
      (fun d => d.groupText 1 ++ ":<request_id>".toList) values) with swallows | kept'
    · exact .inl (keeps.swallows (kept.swallows swallows))
    · exact .inr ⟨_, (keeps.comp kept).comp kept'⟩

end Labels

section Masks
variable [UnicodePlatform]

/-- What is written for the number of a location that no label rule takes. -/
def locationName (n : Str) : Str := if 5 ≤ n.length then numeralName n else "line".toList

/-- The hexadecimal runs and the numbers of a text are masked. -/
def maskRuns (text : Str) : Str :=
  (maskingRules.drop 8).foldl (fun normalized s => reSub s.1 s.2 normalized) text

theorem maskRuns_split {c : Char} (outside : isWord c = false) (u v : Str) :
    maskRuns (u ++ c :: v) = maskRuns u ++ c :: maskRuns v := by
  have barrier {p : Pattern CharClass} {w : String}
      (words : ∀ k ∈ p.classes ++ p.lookbehind, k.wordClass = true) (u v : Str) :
      reSub p (fixedText w) (u ++ c :: v) =
        reSub p (fixedText w) u ++ c :: reSub p (fixedText w) v := by
    have unread (k : CharClass) (hk : k ∈ p.classes ++ p.lookbehind) : k.test c = false := by
      refine Bool.eq_false_iff.mpr fun passes => ?_
      rw [CharClass.isWord_of_test (words k hk) passes] at outside
      cases outside
    exact sub_barrier (fun _ _ _ => rfl) outside
      (fun k hk => unread k (List.mem_append_right _ hk))
      (fun k hk => unread k (List.mem_append_left _ hk))
  change reSub Patterns.longNumber (fixedText "<number>")
    (reSub Patterns.hexRun (fixedText "<hex>") (u ++ c :: v)) = _
  rw [barrier (by decide), barrier (by decide)]
  rfl

theorem maskRuns_short {n : Str} (short : n.length < 5) : maskRuns n = n := by
  have same {p : Pattern CharClass} {w : String} (long : 5 ≤ p.least) :
      reSub p (fixedText w) n = n := by
    refine sub_eq_self (by omega) ?_
    rintro ⟨front, u, rest, rfl, reads⟩
    have least := reads.least_le
    simp only [List.length_append] at short
    omega
  change reSub Patterns.longNumber (fixedText "<number>")
    (reSub Patterns.hexRun (fixedText "<hex>") n) = n
  rw [same (by decide), same (by decide)]

/-- `re.sub(r":\d+", ":<line>", text)` -/
def maskColons (text : Str) : Str := reSub Patterns.colonNumber (fixedText ":<line>") text

theorem subFrom_colon (before text : Str) :
    subFrom CharClass.test isWord Patterns.colonNumber (fixedText ":<line>") 0 before text =
      maskColons text := by
  have none : Patterns.colonNumber.lookbehind = [] := rfl
  exact subFrom_onto (by simp [none]) (fun _ _ _ => rfl) 0 [] text (.inl rfl)

theorem maskColons_free {u : Str} (free : ':' ∉ u) (v : Str) :
    maskColons (u ++ v) = u ++ maskColons v := by
  induction u with
  | nil => rfl
  | cons c u ih =>
    simp only [List.mem_cons, not_or] at free
    have firsts : Patterns.colonNumber.firsts = [.lit ':'] := rfl
    have stuck : first CharClass.test isWord Patterns.colonNumber
        { before := [], after := c :: (u ++ v) } = none := by
      refine first_stuck (by decide) (fun k hk => ?_) [] (u ++ v)
      rw [firsts, List.mem_singleton] at hk
      simp [hk, CharClass.test, Ne.symm free.1]
    change subFrom CharClass.test isWord Patterns.colonNumber _ 0 [] (c :: (u ++ v)) = _
    rw [subFrom_stuck _ stuck, subFrom_colon, ih free.2, List.cons_append]

theorem maskColons_split (u v : Str) :
    maskColons (u ++ ':' :: v) = maskColons u ++ maskColons (':' :: v) := by
  have split : maskColons (u ++ ':' :: v) = maskColons u ++ subFrom CharClass.test isWord
      Patterns.colonNumber (fixedText ":<line>") 0 (u.reverse ++ []) (':' :: v) := by
    have colon : wordAt isWord (':' :: v) = false := isWord_mark (by simp)
    refine subFrom_append colon (fun _ _ _ => rfl) u 0 [] (Nat.zero_le _) ?_
    intro front rest _ some d found
    obtain ⟨text, ahead, -, reads⟩ := reads_of_first found
    rcases stops_or_reads ahead with stops | ⟨z, rfl, -⟩
    · exact stops
    · obtain ⟨colon, _, whole, isColon, digits, _, rfl, ⟨-, -, decimal⟩, rfl⟩ := reads
      rw [reads_lits.mp isColon] at whole
      obtain ⟨c, rest, rfl⟩ := List.exists_cons_of_ne_nil some
      have inside : ':' ∈ digits := by
        have tail : rest ++ ':' :: z = digits := by simpa using (List.cons.inj whole).2
        rw [← tail]
        simp
      exact absurd rfl (ne_colon_of_isDecimal (decimal ':' inside))
  rw [split, subFrom_colon]

/-- A literal is matched where it stands. -/
theorem first_lits (s : String) (before after : Str) : ∃ e, first CharClass.test isWord
    (Patterns.lits s) { before := before, after := s.toList ++ after } = some e ∧
      e.after = after := by
  cases found : first CharClass.test isWord (Patterns.lits s)
      { before := before, after := s.toList ++ after } with
  | none => exact absurd (reads_lits.mpr rfl) (first_eq_none_iff.mp found s.toList after rfl)
  | some e =>
    obtain ⟨u, split, -, reads⟩ := reads_of_first found
    obtain rfl := reads_lits.mp reads
    exact ⟨e, rfl, (List.append_cancel_left split).symm⟩

theorem maskColons_number {n after : Str} (numeral : Numeral n)
    (stops : wordAt isWord after = false) :
    maskColons (':' :: (n ++ after)) = ":<line>".toList ++ maskColons after := by
  obtain ⟨e, found, ahead⟩ := first_lits ":" [] (n ++ after)
  have run : first CharClass.test isWord (.run .decimal 1 none) e =
      some { e with before := n.reverse ++ e.before, after := after } := by
    refine first_run_eq ahead (List.length_pos_iff.mpr numeral.some)
      (fun c hc => isDecimal_of_isDigit (numeral.digits c hc)) fun c hc => ?_
    cases after with
    | nil => cases hc
    | cons d after =>
      obtain rfl := Option.some.inj hc
      refine Bool.eq_false_iff.mpr fun decimal => ?_
      rw [wordAt, isWord, UnicodePlatform.isAlnum_of_isDecimal d decimal] at stops
      cases stops
  have whole : first CharClass.test isWord Patterns.colonNumber
      { before := [], after := ':' :: (n ++ after) } =
        some { e with before := n.reverse ++ e.before, after := after } :=
    first_seq_of_first found (first_seq_of_first run rfl)
  change subFrom CharClass.test isWord Patterns.colonNumber _ 0 [] (':' :: (n ++ after)) = _
  rw [subFrom_hit _ whole (first_shorter (by decide) whole), subFrom_colon, fixedText]

theorem maskColons_bracket (text : Str) :
    maskColons (':' :: '<' :: text) = ':' :: maskColons ('<' :: text) := by
  have stuck : first CharClass.test isWord Patterns.colonNumber
      { before := [], after := ':' :: '<' :: text } = none := by
    refine first_eq_none_iff.mpr fun u after split reads => ?_
    obtain ⟨colon, _, rfl, isColon, digits, _, rfl, ⟨long, -, decimal⟩, rfl⟩ := reads
    rw [reads_lits.mp isColon] at split
    cases digits with
    | nil => simp at long
    | cons d digits =>
      obtain ⟨rfl, -⟩ := List.cons.inj (List.cons.inj split).2
      have bracket : Platform.isDecimal '<' = true := decimal '<' List.mem_cons_self
      rw [Platform.isDecimal_ascii '<' (by decide)] at bracket
      exact absurd bracket (by decide)
  change subFrom CharClass.test isWord Patterns.colonNumber _ 0 [] (':' :: '<' :: text) = _
  rw [subFrom_stuck _ stuck, subFrom_colon]

/-- The number is named with its colon, whichever rule names it. -/
theorem maskColons_maskRuns {n after : Str} (numeral : Numeral n)
    (stops : wordAt isWord after = false) : maskColons (':' :: (maskRuns n ++ after)) =
      ':' :: '<' :: (locationName n ++ '>' :: maskColons after) := by
  unfold locationName
  by_cases long : 5 ≤ n.length
  · have free : ':' ∉ '<' :: (numeralName n ++ ['>']) := by
      unfold numeralName
      split <;> decide
    have masked : maskRuns n = '<' :: (numeralName n ++ ['>']) := numeral.reSub_name long
    rw [if_pos long, masked, List.cons_append, maskColons_bracket, ← List.cons_append,
      maskColons_free free]
    simp
  · rw [if_neg long, maskRuns_short (Nat.lt_of_not_le long), maskColons_number numeral stops]
    rfl

theorem maskRuns_append {after : Str} (stops : wordAt isWord after = false) (u : Str) :
    maskRuns (u ++ after) = maskRuns u ++ maskRuns after ∧
      wordAt isWord (maskRuns after) = false := by
  cases after with
  | nil =>
    rw [List.append_nil]
    exact ⟨(List.append_nil _).symm, rfl⟩
  | cons c after =>
    have alone : maskRuns (c :: after) = c :: maskRuns after := maskRuns_split stops [] after
    rw [maskRuns_split stops, alone]
    exact ⟨rfl, stops⟩

omit [UnicodePlatform] in
theorem wordAt_start [Platform] {u v : Str} (prefixed : u <+: v)
    (stops : wordAt isWord v = false) : wordAt isWord u = false := by
  obtain ⟨rest, rfl⟩ := prefixed
  cases u with
  | nil => rfl
  | cons c u => exact stops

/-- The substitutions behind the label rules, white space and the last substitution of a
stack line. -/
def finishLine (text : Str) : Str := maskColons (strip (collapse (maskRuns text)))

theorem finishLine_numbered (before : Str) : ∃ front, ∀ after, wordAt isWord after = false →
    ∃ rest, ∀ n, Numeral n → finishLine (numbered before n after) =
      front ++ ':' :: '<' :: (locationName n ++ '>' :: rest) := by
  refine ⟨maskColons ((collapse (maskRuns before)).dropWhile Platform.isSpace), fun after stops =>
    ⟨maskColons ((collapse (maskRuns after)).reverse.dropWhile Platform.isSpace).reverse,
      fun n numeral => ?_⟩⟩
  obtain ⟨split, stops'⟩ := maskRuns_append stops n
  have colon : Platform.isSpace ':' = false := Platform.isSpace_ascii ':' (by decide)
  have solid : ∀ c ∈ maskRuns n, Platform.isSpace c = false := by
    by_cases long : 5 ≤ n.length
    · have masked : maskRuns n = '<' :: (numeralName n ++ ['>']) := numeral.reSub_name long
      have bracket {c : Char} (bracket : c = '<' ∨ c = '>') : Platform.isSpace c = false := by
        rcases bracket with rfl | rfl <;> exact Platform.isSpace_ascii _ (by decide)
      rw [masked]
      simp only [List.forall_mem_cons, List.forall_mem_append, List.not_mem_nil, false_implies,
        implies_true, and_true]
      exact ⟨bracket (.inl rfl), numeralName_solid n, bracket (.inr rfl)⟩
    · rw [maskRuns_short (Nat.lt_of_not_le long)]
      exact numeral.solid
  have ends : SolidEnds (':' :: maskRuns n) := by
    refine ⟨List.cons_ne_nil _ _, by simpa using colon, fun x hx => ?_⟩
    rcases List.mem_cons.mp (List.mem_of_getLast? hx) with rfl | inside
    · exact colon
    · exact solid x inside
  have collapsed : collapse (maskRuns n ++ maskRuns after) =
      maskRuns n ++ collapse (maskRuns after) :=
    ((collapses (maskRuns after)).append_solid solid).collapse_eq
  have start : ((collapse (maskRuns after)).reverse.dropWhile Platform.isSpace).reverse <+:
      collapse (maskRuns after) := by
    have tail := List.reverse_prefix.mpr (List.dropWhile_suffix
      (l := (collapse (maskRuns after)).reverse) Platform.isSpace)
    rwa [List.reverse_reverse] at tail
  calc finishLine (numbered before n after)
    _ = maskColons
        (strip (collapse (maskRuns before ++ ':' :: (maskRuns n ++ maskRuns after)))) := by
      rw [finishLine, numbered, maskRuns_split (isWord_mark (by simp)), split]
    _ = maskColons (strip (collapse (maskRuns before) ++
        (':' :: maskRuns n ++ collapse (maskRuns after)))) := by
      rw [collapse_append colon, collapsed, List.cons_append]
    _ = _ := by
      rw [ends.strip_append, List.cons_append, maskColons_split,
        maskColons_maskRuns numeral (wordAt_start start ((wordAt_collapse _).trans stops'))]

end Masks

end LogLens
