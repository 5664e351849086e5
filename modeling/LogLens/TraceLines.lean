import LogLens.Lines
import LogLens.Tokens

/-! Stack traces are normalised line by line, and the lines of the normal form can be read back. -/

namespace LogLens
open BacktrackingRegex

section Traces
variable [Platform]

/-- The lines that are left of a text: stripped, and the blank ones dropped. -/
def nonBlank (lines : List Str) : List Str := (lines.map strip).filter fun line => !line.isEmpty

/-- The lines of a trace that `normalize_stack_trace` goes through. -/
def traceLines (trace : Str) : List Str := nonBlank (splitlines trace)

theorem normalizeStackTrace_some (trace : Str) : normalizeStackTrace (some trace) =
    joinWith ['\n'] ((traceLines trace).map normalizeStackLine) := rfl

theorem nonBlank_append (lines lines' : List Str) :
    nonBlank (lines ++ lines') = nonBlank lines ++ nonBlank lines' := by
  rw [nonBlank, List.map_append, List.filter_append]
  rfl

theorem nonBlank_cons (line : Str) (lines : List Str) :
    nonBlank (line :: lines) = nonBlank [line] ++ nonBlank lines := nonBlank_append [line] lines

theorem nonBlank_splitlinesFrom (current trace : Str) (inside : OneLine current) :
    nonBlank (splitlinesFrom current trace) =
      nonBlank ((current.reverse ++ trace).splitOnP isLineEnd) := by
  have own {current : Str} (inside : OneLine current) : OneLine current.reverse := fun c hc =>
    inside c (List.mem_reverse.mp hc)
  fun_induction splitlinesFrom current trace with
  | case1 current none =>
    rw [List.isEmpty_iff.mp none]
    rfl
  | case2 current some => rw [List.append_nil, List.splitOnP_eq_singleton (own inside)]
  | case3 current trace ih =>
    rw [nonBlank_cons, ih (by simp [OneLine]), List.splitOnP_append_cons _ _ (by decide),
      List.splitOnP_eq_singleton (own inside), nonBlank_append]
    rfl
  | case4 current c trace _ ends ih =>
    rw [nonBlank_cons, ih (by simp [OneLine]), List.splitOnP_append_cons _ _ ends,
      List.splitOnP_eq_singleton (own inside), nonBlank_append]
    rfl
  | case5 current c trace _ ends ih =>
    rw [ih (List.forall_mem_cons.mpr ⟨Bool.eq_false_iff.mpr ends, inside⟩)]
    simp

theorem traceLines_eq (trace : Str) : traceLines trace = nonBlank (trace.splitOnP isLineEnd) :=
  nonBlank_splitlinesFrom [] trace (by simp [OneLine])

/-- A line end separates the lines before it from those behind it. -/
theorem traceLines_append_cons {c : Char} (ends : isLineEnd c = true) (u v : Str) :
    traceLines (u ++ c :: v) = traceLines u ++ traceLines v := by
  rw [traceLines_eq, traceLines_eq, traceLines_eq, List.splitOnP_append_cons u v ends,
    nonBlank_append]

theorem traceLines_oneLine {line : Str} (inside : OneLine line) :
    traceLines line = nonBlank [line] := by
  rw [traceLines_eq, List.splitOnP_eq_singleton inside]

theorem strip_cons_space {c : Char} (space : Platform.isSpace c = true) (s : Str) :
    strip (c :: s) = strip s := by
  rw [strip, List.dropWhile_cons_of_pos space]
  rfl

theorem strip_concat_space {c : Char} (space : Platform.isSpace c = true) (s : Str) :
    strip (s ++ [c]) = strip s := by
  rw [strip, strip, List.dropWhile_append]
  split
  · rename_i none
    rw [List.isEmpty_iff.mp none, List.dropWhile_cons_of_pos space]
    rfl
  · rw [List.reverse_append, List.reverse_singleton, List.singleton_append,
      List.dropWhile_cons_of_pos space]

theorem traceLines_cons_space {c : Char} (space : Platform.isSpace c = true)
    (other : isLineEnd c = false) (v : Str) : traceLines (c :: v) = traceLines v := by
  have lead {line : Str} (inside : OneLine line) : traceLines (c :: line) = traceLines line := by
    rw [traceLines_oneLine (List.forall_mem_cons.mpr ⟨other, inside⟩), traceLines_oneLine inside,
      nonBlank, List.map_singleton, strip_cons_space space]
    rfl
  rcases clear_or_split isLineEnd v with inside | ⟨line, d, rest, rfl, inside, ends⟩
  · exact lead inside
  · rw [← List.cons_append, traceLines_append_cons ends, traceLines_append_cons ends, lead inside]

theorem traceLines_concat_space {c : Char} (space : Platform.isSpace c = true)
    (other : isLineEnd c = false) (u : Str) : traceLines (u ++ [c]) = traceLines u := by
  have close {line : Str} (inside : OneLine line) :
      traceLines (line ++ [c]) = traceLines line := by
    rw [traceLines_oneLine (List.forall_mem_append.mpr ⟨inside, by simp [other]⟩),
      traceLines_oneLine inside, nonBlank, List.map_singleton, strip_concat_space space]
    rfl
  rcases clear_or_split isLineEnd u.reverse with inside | ⟨line, d, rest, split, inside, ends⟩
  · exact close fun x hx => inside x (List.mem_reverse.mpr hx)
  · have whole : u = rest.reverse ++ d :: line.reverse := by
      rw [← List.reverse_reverse u, split]
      simp
    rw [whole, List.append_assoc, List.cons_append, traceLines_append_cons ends,
      traceLines_append_cons ends, close fun x hx => inside x (List.mem_reverse.mp hx)]

/-- White space and line ends. -/
def Blank (gap : Str) : Prop := ∀ c ∈ gap, Platform.isSpace c = true ∨ isLineEnd c = true

instance (gap : Str) : Decidable (Blank gap) := inferInstanceAs (Decidable (∀ c ∈ gap, _))

theorem traceLines_nil : traceLines [] = [] := rfl

theorem traceLines_blank_append {gap : Str} (blank : Blank gap) (v : Str) :
    traceLines (gap ++ v) = traceLines v := by
  induction gap with
  | nil => rfl
  | cons c gap ih =>
    rw [Blank, List.forall_mem_cons] at blank
    cases ends : isLineEnd c with
    | true =>
      have split := traceLines_append_cons ends [] (gap ++ v)
      rw [traceLines_nil, List.nil_append, List.nil_append, ih blank.2] at split
      exact split
    | false =>
      have space := blank.1.resolve_right (by simp [ends])
      rw [List.cons_append, traceLines_cons_space space ends, ih blank.2]

theorem traceLines_append_blank {gap : Str} (blank : Blank gap) (u : Str) :
    traceLines (u ++ gap) = traceLines u := by
  induction gap generalizing u with
  | nil => rw [List.append_nil]
  | cons c gap ih =>
    rw [Blank, List.forall_mem_cons] at blank
    cases ends : isLineEnd c with
    | true =>
      have none : traceLines gap = [] := by
        rw [← List.append_nil gap, traceLines_blank_append blank.2, traceLines_nil]
      rw [traceLines_append_cons ends, none, List.append_nil]
    | false =>
      have space := blank.1.resolve_right (by simp [ends])
      rw [List.append_cons, ih blank.2, traceLines_concat_space space ends]

/-- Blank text with a line end in it separates two lists of lines, whatever it is. -/
theorem traceLines_glue {gap : Str} (blank : Blank gap) (ends : ∃ c ∈ gap, isLineEnd c = true)
    (u v : Str) : traceLines (u ++ (gap ++ v)) = traceLines u ++ traceLines v := by
  obtain ⟨c, hc, ends⟩ := ends
  obtain ⟨front, rest, rfl⟩ := List.append_of_mem hc
  rw [Blank, List.forall_mem_append, List.forall_mem_cons] at blank
  have parts : u ++ (front ++ c :: rest ++ v) = u ++ front ++ c :: (rest ++ v) := by simp
  rw [parts, traceLines_append_cons ends, traceLines_append_blank blank.1,
    traceLines_blank_append blank.2.2]

end Traces

section Marked
variable [Platform]

/-- Some character of the text is no white space. -/
def Marked (text : Str) : Prop := ∃ c ∈ text, Platform.isSpace c = false

theorem Marked.strip_ne_nil {text : Str} (marked : Marked text) : strip text ≠ [] := by
  obtain ⟨c, hc, solid⟩ := marked
  intro none
  obtain ⟨front, rest, split, spaces, spaces'⟩ := strip_split text
  rw [split, none, List.nil_append, List.mem_append] at hc
  have space := hc.elim (spaces c) (spaces' c)
  rw [solid] at space
  cases space

theorem SolidEnds.marked {text : Str} (ends : SolidEnds text) : Marked text := by
  obtain ⟨c, rest, rfl⟩ := List.exists_cons_of_ne_nil ends.some
  exact ⟨c, List.mem_cons_self, ends.first c rfl⟩

section Substitution
variable {p : Pattern CharClass} {replacement : Cursor Char → Str}

/-- A substitution that puts a mark in the place of each match. -/
theorem Marked.subFrom (some : 0 < p.least) (marks : ∀ d, '<' ∈ replacement d) (before : Str)
    {text : Str} (marked : Marked text) :
    Marked (subFrom CharClass.test isWord p replacement 0 before text) := by
  have solid : Platform.isSpace '<' = false := Platform.isSpace_ascii '<' (by decide)
  induction before, text using @scan_induction _ _ CharClass.test isWord p some with
  | done => exact marked
  | keep before x rest stuck ih =>
    obtain ⟨c, hc, own⟩ := marked
    rw [subFrom_stuck _ stuck]
    rcases List.mem_cons.mp hc with rfl | hc
    · exact ⟨c, List.mem_cons_self, own⟩
    · obtain ⟨d, hd, own⟩ := ih ⟨c, hc, own⟩
      exact ⟨d, List.mem_cons_of_mem _ hd, own⟩
  | hit before u d found behind ih =>
    rw [subFrom_hit _ found (first_shorter some found)]
    exact ⟨'<', List.mem_append_left _ (marks d), solid⟩

theorem subFrom_head (some : 0 < p.least) (placed : ∀ d, SolidEnds (replacement d)) (before : Str)
    {text : Str} (ne : text ≠ []) :
    subFrom CharClass.test isWord p replacement 0 before text ≠ [] ∧
      ((∀ x ∈ text.head?, Platform.isSpace x = false) →
        ∀ x ∈ (subFrom CharClass.test isWord p replacement 0 before text).head?,
          Platform.isSpace x = false) := by
  induction before, text using @scan_induction _ _ CharClass.test isWord p some with
  | done => exact absurd rfl ne
  | keep before x rest stuck _ =>
    rw [subFrom_stuck _ stuck]
    exact ⟨List.cons_ne_nil _ _, id⟩
  | hit before u d found _ _ =>
    rw [subFrom_hit _ found (first_shorter some found)]
    obtain ⟨c, out, own⟩ := List.exists_cons_of_ne_nil (placed d).some
    have solid := (placed d).first
    rw [own] at solid ⊢
    exact ⟨List.cons_ne_nil _ _, fun _ => solid⟩

theorem subFrom_last (some : 0 < p.least) (placed : ∀ d, SolidEnds (replacement d)) (before : Str)
    {text : Str} (last : ∀ x ∈ text.getLast?, Platform.isSpace x = false) :
    ∀ x ∈ (subFrom CharClass.test isWord p replacement 0 before text).getLast?,
      Platform.isSpace x = false := by
  induction before, text using @scan_induction _ _ CharClass.test isWord p some with
  | done => exact last
  | keep before x rest stuck ih =>
    rw [subFrom_stuck _ stuck]
    by_cases none : rest = []
    · rw [none] at last ⊢
      exact last
    · have later := (subFrom_head some placed (x :: before) none).1
      rw [← List.singleton_append, List.getLast?_append_of_ne_nil _ none] at last
      rw [← List.singleton_append, List.getLast?_append_of_ne_nil _ later]
      exact ih last
  | hit before u d found behind ih =>
    rw [subFrom_hit _ found (first_shorter some found)]
    by_cases none : d.after = []
    · rw [none, subFrom, List.append_nil]
      exact (placed d).last
    · have later := (subFrom_head some placed d.before none).1
      rw [List.getLast?_append_of_ne_nil _ none] at last
      rw [List.getLast?_append_of_ne_nil _ later]
      exact ih last

theorem SolidEnds.reSub {text : Str} (ends : SolidEnds text) (some : 0 < p.least)
    (placed : ∀ d, SolidEnds (replacement d)) : SolidEnds (reSub p replacement text) where
  some := (subFrom_head some placed [] ends.some).1
  first := (subFrom_head some placed [] ends.some).2 ends.first
  last := subFrom_last some placed [] ends.last

end Substitution

omit [Platform] in
theorem maskingRules_mark : ∀ rule ∈ maskingRules, 0 < rule.1.least ∧ ∀ d, '<' ∈ rule.2 d := by
  have fixed {w : String} (h : '<' ∈ w.toList) (d : Cursor Char) : '<' ∈ fixedText w d := h
  have labelled {w : String} (h : '<' ∈ w.toList) (d : Cursor Char) :
      '<' ∈ d.groupText 1 ++ w.toList := List.mem_append_right _ h
  simp only [maskingRules, substitutions, List.take_succ_cons, List.take_zero,
    List.forall_mem_cons, List.not_mem_nil, false_implies, implies_true, and_true]
  refine ⟨⟨by decide, fixed (by decide)⟩, ⟨by decide, fixed (by decide)⟩,
    ⟨by decide, fixed (by decide)⟩, ⟨by decide, fixed (by decide)⟩,
    ⟨by decide, fixed (by decide)⟩, ⟨by decide, fixed (by decide)⟩,
    ⟨by decide, labelled (by decide)⟩, ⟨by decide, labelled (by decide)⟩,
    ⟨by decide, fixed (by decide)⟩, ⟨by decide, fixed (by decide)⟩⟩

/-- A text that is not blank has a normal form without white space around it. -/
theorem Marked.normalizeMessage {message : Str} (marked : Marked message) :
    SolidEnds (normalizeMessage message) := by
  have passes : ∀ (rules : List (Pattern CharClass × (Cursor Char → Str))) (text : Str),
      (∀ rule ∈ rules, 0 < rule.1.least ∧ ∀ d, '<' ∈ rule.2 d) → Marked text →
      Marked (rules.foldl (fun normalized s => LogLens.reSub s.1 s.2 normalized) text) := by
    intro rules
    induction rules with
    | nil => exact fun _ _ marked => marked
    | cons rule rules ih =>
      intro text marks marked
      rw [List.forall_mem_cons] at marks
      exact ih _ marks.2 (marked.subFrom marks.1.1 marks.1.2 [])
  have stripped := (strip_solidEnds marked.strip_ne_nil).marked
  have whole := passes maskingRules (strip message) maskingRules_mark stripped
  have collapsed := (strip_solidEnds whole.strip_ne_nil).collapse
  rw [← strip_collapse] at collapsed
  rw [normalizeMessage_eq]
  exact collapsed

theorem normalizeStackLine_solidEnds {line : Str} (marked : Marked line) :
    SolidEnds (normalizeStackLine line) := by
  have framed : Marked (reSub Patterns.stackLine
      (fun m => m.groupText 1 ++ "<line>".toList ++ m.groupText 4) line) :=
    marked.subFrom (by decide) (fun d => by simp) []
  have solid : ∀ c ∈ ":<line>".toList, Platform.isSpace c = false := by
    intro c hc
    rw [Platform.isSpace_ascii c (fixedText_holds (fun _ _ ascii => ascii) rfl c hc)]
    have table : ∀ c ∈ ":<line>".toList, asciiSpace c = false := by decide
    exact table c hc
  exact framed.normalizeMessage.reSub (by decide) fun _ =>
    ⟨List.cons_ne_nil _ _, fun x hx => solid x (List.mem_of_mem_head? hx),
      fun x hx => solid x (List.mem_of_mem_getLast? hx)⟩

theorem OneLine.normalizeStackLine {line : Str} (inside : OneLine line) :
    OneLine (normalizeStackLine line) := by
  have printable (c : Char) (from32 : 32 ≤ c.toNat) (to127 : c.toNat < 128) :
      isLineEnd c = false := by
    have other : c ≠ '\n' ∧ c ≠ '\r' := by
      constructor <;>
        (rintro rfl; exact absurd from32 (by decide))
    simp [isLineEnd, other]
    omega
  have framed : OneLine (reSub Patterns.stackLine
      (fun m => m.groupText 1 ++ "<line>".toList ++ m.groupText 4) line) := by
    refine sub_holds _ (fun d held => ?_) inside
    rw [List.forall_mem_append, List.forall_mem_append]
    exact ⟨⟨held.groupText 1, fixedText_holds printable rfl⟩, held.groupText 4⟩
  exact sub_holds _ (fun _ _ => fixedText_holds printable rfl)
    (normalizeMessage_holds printable framed)

theorem mem_traceLines {trace line : Str} (h : line ∈ traceLines trace) :
    OneLine line ∧ Marked line := by
  induction size : trace.length using Nat.strong_induction_on generalizing trace with
  | _ n ih =>
    subst size
    have own {piece : Str} (inside : OneLine piece) (h : line ∈ traceLines piece) :
        OneLine line ∧ Marked line := by
      rw [traceLines_oneLine inside, nonBlank, List.mem_filter, List.map_singleton,
        List.mem_singleton] at h
      obtain ⟨rfl, some⟩ := h
      have some : strip piece ≠ [] := by simpa using some
      exact ⟨fun c hc => inside c (strip_subset hc), (strip_solidEnds some).marked⟩
    rcases clear_or_split isLineEnd trace with inside | ⟨piece, c, rest, rfl, inside, ends⟩
    · exact own inside h
    · rw [traceLines_append_cons ends, List.mem_append] at h
      refine h.elim (own inside) fun later => ih rest.length ?_ later rfl
      rw [List.length_append, List.length_cons]
      omega

omit [Platform] in
theorem splitlines_cons {line : Str} (inside : OneLine line) (rest : Str) :
    splitlines (line ++ '\n' :: rest) = line :: splitlines rest := by
  rw [splitlines, splitlinesFrom_inside inside, splitlinesFrom_cons _ (by simp), if_pos (by decide)]
  simp [splitlines]

omit [Platform] in
theorem splitlines_joinWith {lines : List Str} (inside : ∀ line ∈ lines, OneLine line)
    (some : ∀ line ∈ lines, line ≠ []) : splitlines (joinWith ['\n'] lines) = lines := by
  induction lines with
  | nil => rfl
  | cons line lines ih =>
    rw [List.forall_mem_cons] at inside some
    cases lines with
    | nil =>
      rw [joinWith, List.intercalate_singleton, splitlines, ← List.append_nil line,
        splitlinesFrom_inside inside.1]
      simp [splitlinesFrom, some.1]
    | cons next lines =>
      rw [joinWith_cons_cons, List.singleton_append, splitlines_cons inside.1, ih inside.2 some.2]

end Marked

section Normalised
variable [Platform]

/-- The lines of a normalised trace are the normal forms of the lines of the trace that are not
blank; none of them is blank or has white space around it. -/
theorem normalizeStackTrace_lines (trace : Str) :
    splitlines (normalizeStackTrace (some trace)) = (traceLines trace).map normalizeStackLine ∧
      ∀ line ∈ splitlines (normalizeStackTrace (some trace)), SolidEnds line := by
  have clean : ∀ line ∈ (traceLines trace).map normalizeStackLine,
      OneLine line ∧ SolidEnds line := by
    rw [List.forall_mem_map]
    intro line hl
    obtain ⟨inside, marked⟩ := mem_traceLines hl
    exact ⟨inside.normalizeStackLine, normalizeStackLine_solidEnds marked⟩
  have lines : splitlines (normalizeStackTrace (some trace)) =
      (traceLines trace).map normalizeStackLine :=
    splitlines_joinWith (fun line hl => (clean line hl).1) fun line hl => (clean line hl).2.some
  exact ⟨lines, fun line hl => (clean line (lines ▸ hl)).2⟩

/-- Two traces are normalised alike exactly if their lines are, one by one. -/
theorem stack_trace_linewise (s t : Str) :
    (normalizeStackTrace (some s) = normalizeStackTrace (some t) ↔
      (traceLines s).map normalizeStackLine = (traceLines t).map normalizeStackLine) ∧
    splitlines (normalizeStackTrace (some s)) = (traceLines s).map normalizeStackLine ∧
    ∀ line ∈ splitlines (normalizeStackTrace (some s)), SolidEnds line := by
  obtain ⟨lines, clean⟩ := normalizeStackTrace_lines s
  refine ⟨⟨fun same => ?_, fun same => ?_⟩, lines, clean⟩
  · rw [← lines, same, (normalizeStackTrace_lines t).1]
  · rw [normalizeStackTrace_some, same, normalizeStackTrace_some]

/-- What stands between two lines besides a line end does not matter to the fingerprint. -/
theorem stack_trace_layout {gap gap' : Str} (blank : Blank gap)
    (ends : ∃ c ∈ gap, isLineEnd c = true) (blank' : Blank gap')
    (ends' : ∃ c ∈ gap', isLineEnd c = true) (s t : Str) (payload : FingerprintInput) :
    splitlines (normalizeStackTrace (some (s ++ (gap ++ t)))) =
      splitlines (normalizeStackTrace (some s)) ++ splitlines (normalizeStackTrace (some t)) ∧
    generateFingerprint { payload with stackTrace := some (s ++ (gap ++ t)) } =
      generateFingerprint { payload with stackTrace := some (s ++ (gap' ++ t)) } := by
  have lines := traceLines_glue blank ends s t
  have same : normalizeStackTrace (some (s ++ (gap ++ t))) =
      normalizeStackTrace (some (s ++ (gap' ++ t))) := by
    rw [normalizeStackTrace_some, lines, ← traceLines_glue blank' ends' s t,
      normalizeStackTrace_some]
  constructor
  · rw [(normalizeStackTrace_lines _).1, lines, List.map_append, (normalizeStackTrace_lines s).1,
      (normalizeStackTrace_lines t).1]
  · rw [generateFingerprint, generateFingerprint, fingerprintParts, fingerprintParts, same]

end Normalised

/-- Line ends of another system, a blank line and an indented line. -/
theorem stack_trace_layout_windows : letI := asciiPlatform
    let trace (gap : Str) : FingerprintInput :=
      ⟨['s'], ['m'], none, some ("File \"a\", line 5, in f".toList ++ (gap ++ "E: 7".toList))⟩
    generateFingerprint (trace "\r\n \r\n\t".toList) = generateFingerprint (trace ['\n']) := by
  let := asciiPlatform
  have newline : '\n' ∈ "\r\n \r\n\t".toList := by decide
  exact (stack_trace_layout (by decide) ⟨'\n', newline, rfl⟩ (by decide)
    ⟨'\n', List.mem_singleton_self _, rfl⟩ _ _ ⟨['s'], ['m'], none, none⟩).2

end LogLens
