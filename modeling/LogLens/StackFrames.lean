import LogLens.LineLabels

/-! The frames of `_STACK_LINE_RE`: the number of a frame is written over whatever it is, by
this pattern or by the label rule for `line`, and a number of a location beside it stays. -/

namespace LogLens
open BacktrackingRegex

section Frames

/-- What stands before the line number of a frame. -/
def frameHead (path : Str) : Str := "File \"".toList ++ (path ++ "\", line ".toList)

def stackFrame (path n function : Str) : Str := frameHead path ++ (n ++ (", in ".toList ++ function))

/-- The substitution of `normalize_stack_trace` before the common ones. -/
def maskFrame [Platform] (line : Str) : Str :=
  reSub Patterns.stackLine (fun m => m.groupText 1 ++ "<line>".toList ++ m.groupText 4) line

variable [UnicodePlatform]

/-- The path of a frame and its line number. -/
structure FramePlace (path n : Str) : Prop where
  somePath : path ≠ []
  unquoted : '"' ∉ path
  some : n ≠ []
  decimal : ∀ c ∈ n, Platform.isDecimal c = true

/-- The parts of a frame. -/
structure FrameParts (path n function : Str) : Prop extends FramePlace path n where
  someFunction : function ≠ []

theorem reads_stackLine {before u after : Str}
    (reads : Reads CharClass.test isWord Patterns.stackLine before u after) :
    ∃ path n function, u = stackFrame path n function ∧ FrameParts path n function := by
  obtain ⟨_, _, rfl, ⟨quote, _, rfl, isQuote, path, _, rfl, ⟨somePath, -, unquoted⟩, _, _, rfl,
    isLine, rfl⟩, n, _, rfl, ⟨some, -, decimal⟩, _, _, rfl, ⟨mark, _, rfl, isMark, function, _, rfl,
    ⟨someFunction, -, -⟩, rfl⟩, rfl⟩ := reads
  rw [reads_lits.mp isQuote, reads_lits.mp isLine, reads_lits.mp isMark]
  refine ⟨path, n, function, by simp [stackFrame, frameHead],
    ⟨?_, fun quoted => ?_, ?_, decimal⟩, ?_⟩
  · exact List.length_pos_iff.mp somePath
  · simpa [CharClass.test] using unquoted '"' quoted
  · exact List.length_pos_iff.mp some
  · exact List.length_pos_iff.mp someFunction

omit [UnicodePlatform] in
theorem frameHead_unique {path path' w w' : Str} (unquoted : '"' ∉ path) (unquoted' : '"' ∉ path')
    (same : frameHead path ++ w = frameHead path' ++ w') : path = path' ∧ w = w' := by
  have mark (path : Str) (w : Str) : frameHead path ++ w =
      "File \"".toList ++ (path ++ '"' :: (", line ".toList ++ w)) := by simp [frameHead]
  have other {path : Str} (unquoted : '"' ∉ path) : ∀ c ∈ path, (c != '"') = true := by
    intro c hc
    simpa using fun quote : c = '"' => unquoted (quote ▸ hc)
  rw [mark, mark] at same
  obtain ⟨rfl, -, rest⟩ := first_split_unique (P := (· != '"')) (by simp) (by simp)
    (other unquoted) (other unquoted') (List.append_cancel_left same)
  exact ⟨rfl, List.append_cancel_left rest⟩

theorem digits_unique {n n' w w' : Str} (decimal : ∀ c ∈ n, Platform.isDecimal c = true)
    (decimal' : ∀ c ∈ n', Platform.isDecimal c = true) (same : n ++ ',' :: w = n' ++ ',' :: w') :
    n = n' ∧ w = w' := by
  have comma : Platform.isDecimal ',' = false := Platform.isDecimal_ascii ',' (by decide)
  obtain ⟨rfl, -, rfl⟩ := first_split_unique comma comma decimal decimal' same
  exact ⟨rfl, rfl⟩

theorem reads_frameHead {before u after : Str} (reads : Reads CharClass.test isWord
      (.chain [Patterns.lits "File \"", .group 2 (.atLeast 1 (.noneOf ['"'])),
        Patterns.lits "\", line "]) before u after) : ∃ path, u = frameHead path ∧ '"' ∉ path := by
  obtain ⟨quote, _, rfl, isQuote, path, _, rfl, ⟨-, -, unquoted⟩, _, _, rfl, isLine, rfl⟩ := reads
  rw [reads_lits.mp isQuote, reads_lits.mp isLine]
  refine ⟨path, by simp [frameHead], fun quoted => ?_⟩
  simpa [CharClass.test] using unquoted '"' quoted

/-- A frame is matched to the end of its line. -/
theorem first_stackLine {path n function : Str} (parts : FrameParts path n function)
    (line : '\n' ∉ stackFrame path n function) (before : Str) :
    ∃ d, first CharClass.test isWord Patterns.stackLine
        { before := before, after := stackFrame path n function } = some d ∧
      d.after = [] ∧ d.groupText 1 = frameHead path ∧
      d.groupText 4 = ", in ".toList ++ function := by
  cases found : first CharClass.test isWord Patterns.stackLine
      { before := before, after := stackFrame path n function } with
  | none =>
    refine absurd ?_ (first_eq_none_iff.mp found (stackFrame path n function) []
      (List.append_nil _).symm)
    have quoted (c : Char) (hc : c ∈ path) : (CharClass.noneOf ['"']).test c = true := by
      simpa [CharClass.test] using fun quote : c = '"' => parts.unquoted (quote ▸ hc)
    have inLine (c : Char) (hc : c ∈ function) : (CharClass.noneOf ['\n']).test c = true := by
      simpa [CharClass.test] using fun ends : c = '\n' => line (by simp [stackFrame, ends ▸ hc])
    exact ⟨frameHead path, _, rfl, ⟨_, _, rfl, reads_lits.mpr rfl, path, _, rfl,
      ⟨List.length_pos_iff.mpr parts.somePath, by simp, quoted⟩, _, [],
      (List.append_nil _).symm, reads_lits.mpr rfl, rfl⟩, n, _, rfl,
      ⟨List.length_pos_iff.mpr parts.some, by simp, parts.decimal⟩, _, [], (List.append_nil _).symm,
      ⟨_, _, rfl, reads_lits.mpr rfl, function, [], (List.append_nil _).symm,
        ⟨List.length_pos_iff.mpr parts.someFunction, by simp, inLine⟩, rfl⟩, rfl⟩
  | some d =>
    obtain ⟨ahead, way, found₁⟩ := first_seq found
    obtain ⟨behind, way', found₂⟩ := first_seq found₁
    have last : first CharClass.test isWord (.chain [.group 4 (.chain [Patterns.lits ", in ",
      .atLeast 1 (.noneOf ['\n'])])]) behind = some d := found₂
    rw [first_chain_singleton, first_group] at last
    obtain ⟨e, lastFound, rfl⟩ := Option.map_eq_some_iff.mp last
    obtain ⟨marked, -, found₃⟩ := first_seq lastFound
    have run : first CharClass.test isWord (.chain [.atLeast 1 (.noneOf ['\n'])]) marked =
      some e := found₃
    rw [first_chain_singleton] at run
    obtain ⟨u, whole, -, -⟩ := reads_of_first found
    dsimp only at whole
    have done : e.after = [] := by
      cases rest : e.after with
      | nil => rfl
      | cons c rest' =>
        have stops := first_run_stops run c (by rw [rest]; rfl)
        obtain rfl : c = '\n' := by simpa [CharClass.test] using stops
        simp [whole, rest] at line
    obtain ⟨text, split, -, isHead, -⟩ := reads_group_seq (by decide) (List.mem_of_head? found)
    obtain ⟨path', group, unquoted⟩ := reads_frameHead isHead
    rw [group] at split
    obtain ⟨rfl, -⟩ := frameHead_unique unquoted parts.unquoted split.symm
    obtain ⟨head, split₁, -, isHead'⟩ := reads_of_mem_ways way
    obtain ⟨path₁, rfl, unquoted₁⟩ := reads_frameHead isHead'
    obtain ⟨digits, split₂, -, ⟨-, -, decimal⟩⟩ := reads_of_mem_ways way'
    obtain ⟨text₄, split₄, -, mark, function', rfl, isMark, -⟩ := reads_of_first lastFound
    rw [reads_lits.mp isMark] at split₄
    dsimp only at split₁
    rw [split₂, split₄] at split₁
    obtain ⟨-, tail⟩ := frameHead_unique parts.unquoted unquoted₁ split₁
    obtain ⟨-, later⟩ := digits_unique parts.decimal decimal tail
    refine ⟨_, rfl, done, group, ?_⟩
    have own : behind.readUpTo e = behind.after := readUpTo_eq (by rw [done, List.append_nil])
    have marked : behind.after = ", in ".toList ++ function := by
      rw [split₄]
      exact (congrArg (List.cons ',') later).symm
    simp [Cursor.groupText, own, marked]

theorem maskFrame_frame {path n function : Str} (parts : FrameParts path n function)
    (line : '\n' ∉ stackFrame path n function) :
    maskFrame (stackFrame path n function) =
      frameHead path ++ ("<line>".toList ++ (", in ".toList ++ function)) := by
  obtain ⟨d, found, done, head, tail⟩ := first_stackLine parts line []
  have some : stackFrame path n function = 'F' :: (stackFrame path n function).tail := rfl
  unfold maskFrame reSub sub
  rw [some] at found ⊢
  rw [subFrom_hit _ found (first_shorter (by decide) found), done, head, tail]
  simp [subFrom]

theorem subFrom_stackLine (before text : Str) : subFrom CharClass.test isWord Patterns.stackLine
    (fun m => m.groupText 1 ++ "<line>".toList ++ m.groupText 4) 0 before text = maskFrame text := by
  have none : Patterns.stackLine.lookbehind = [] := rfl
  refine subFrom_onto (by simp [none]) (fun d e same => ?_) 0 [] text (.inl rfl)
  simp only [Cursor.groupText, same]

/-- Where no frame begins, the text stays and the rest is substituted. -/
theorem maskFrame_cons {x : Char} {text : Str} (other : ∀ path n function,
      FrameParts path n function → x :: text ≠ stackFrame path n function) :
    maskFrame (x :: text) = x :: maskFrame text := by
  have stuck : first CharClass.test isWord Patterns.stackLine
      { before := [], after := x :: text } = none := by
    refine first_eq_none_iff.mpr fun u after split reads => ?_
    obtain ⟨path, n, function, rfl, parts⟩ := reads_stackLine reads
    refine other path n (function ++ after) ⟨parts.toFramePlace, by simp [parts.someFunction]⟩ ?_
    dsimp only at split
    rw [split]
    simp [stackFrame]
  unfold maskFrame reSub sub
  rw [subFrom_stuck _ stuck, subFrom_stackLine]
  rfl

theorem maskFrame_free {u : Str} (free : 'F' ∉ u) (v : Str) :
    maskFrame (u ++ v) = u ++ maskFrame v := by
  induction u with
  | nil => rfl
  | cons c u ih =>
    simp only [List.mem_cons, not_or] at free
    rw [List.cons_append, maskFrame_cons, ih free.2, List.cons_append]
    intro path n function _ same
    exact free.1 (List.cons.inj same).1.symm

/-- Where a number in a frame is: in its path, its own number, or in its function. -/
theorem frame_around {s n t path d function : Str} (plain : NoDigitEnd s) (numeral : Numeral n)
    (stops : wordAt isWord t = false) (parts : FrameParts path d function)
    (same : s ++ (n ++ t) = stackFrame path d function) :
    (∃ front rest, path = front ++ (n ++ rest) ∧ s = "File \"".toList ++ front ∧
      t = rest ++ ("\", line ".toList ++ (d ++ (", in ".toList ++ function)))) ∨
    (d = n ∧ s = frameHead path ∧ t = ", in ".toList ++ function) ∨
    ∃ front, function = front ++ (n ++ t) ∧
      s = frameHead path ++ (d ++ (", in ".toList ++ front)) := by
  have past {s u v : Str} (free : ∀ c ∈ u, c.isDigit = false) (same : s ++ (n ++ t) = u ++ v) :
      ∃ s', s = u ++ s' ∧ s' ++ (n ++ t) = v := by
    obtain ⟨c, n', rfl⟩ := List.exists_cons_of_ne_nil numeral.some
    refine append_cons_of_not_mem (fun hc => ?_) same
    have digit := numeral.digits c List.mem_cons_self
    rw [free c hc] at digit
    cases digit
  rw [stackFrame, frameHead, List.append_assoc, List.append_assoc] at same
  obtain ⟨s₁, rfl, inPath⟩ := past (by decide) same
  rw [List.append_eq_append_iff] at inPath
  rcases inPath with ⟨z, path_eq, behind⟩ | ⟨z, rfl, behind⟩
  · refine .inl ⟨s₁, ?_⟩
    rw [List.append_eq_append_iff] at behind
    rcases behind with ⟨rest, rfl, t_eq⟩ | ⟨y, n_eq, past⟩
    · exact ⟨rest, path_eq, rfl, t_eq⟩
    · cases y with
      | nil => exact ⟨[], by simpa [n_eq] using path_eq, rfl, past.symm⟩
      | cons c y =>
        have quote : '"' = c := (List.cons.inj past).1
        have inside : '"' ∈ n := by
          rw [n_eq, quote]
          exact List.mem_append_right z List.mem_cons_self
        exact absurd (numeral.digits '"' inside) (by decide)
  · obtain ⟨z, rfl, inNumber⟩ := past (by decide) behind.symm
    rw [List.append_eq_append_iff] at inNumber
    rcases inNumber with ⟨y, rfl, around⟩ | ⟨y, rfl, around⟩
    · refine .inr (.inl ?_)
      have decimal : ∀ c ∈ y, Platform.isDecimal c = true := fun c hc =>
        parts.decimal c (List.mem_append_right z hc)
      have digits : ∀ c ∈ n, Platform.isDecimal c = true := fun c hc =>
        isDecimal_of_isDigit (numeral.digits c hc)
      have comma : Platform.isDecimal ',' = false := Platform.isDecimal_ascii ',' (by decide)
      have none : z = [] := by
        obtain rfl | ⟨z, c, rfl⟩ := List.eq_nil_or_concat' z
        · rfl
        · have shape : "File \"".toList ++ (path ++ ("\", line ".toList ++ (z ++ [c]))) =
              ("File \"".toList ++ (path ++ ("\", line ".toList ++ z))) ++ [c] := by
            simp only [List.append_assoc]
          rw [shape] at plain
          have last := plain c List.getLast?_concat
          rw [parts.decimal c (by simp)] at last
          cases last
      subst none
      cases t with
      | nil =>
        rw [List.append_nil] at around
        rw [digits ',' (by simp [around])] at comma
        cases comma
      | cons c t =>
        have plainHead : Platform.isDecimal c = false := by
          refine Bool.eq_false_iff.mpr fun decimal => ?_
          rw [wordAt, isWord, UnicodePlatform.isAlnum_of_isDecimal c decimal] at stops
          cases stops
        obtain ⟨rfl, rfl, rfl⟩ := first_split_unique plainHead comma digits decimal around
        exact ⟨rfl, by simp [frameHead], rfl⟩
    · obtain ⟨front, rfl, inFunction⟩ := past (by decide) around.symm
      exact .inr (.inr ⟨front, inFunction.symm, by simp [frameHead]⟩)

/-- A frame is in the text up to the `in` behind its number. -/
def Headed (s : Str) : Prop :=
  ∃ front path n rest, s = front ++ (frameHead path ++ (n ++ (", in ".toList ++ rest))) ∧
    FramePlace path n

omit [UnicodePlatform] in
theorem count_frameHead {path : Str} (unquoted : '"' ∉ path) : (frameHead path).count '"' = 2 := by
  have around : ("File \"".toList).count '"' = 1 ∧ ("\", line ".toList).count '"' = 1 := by decide
  rw [frameHead, List.count_append, List.count_append, List.count_eq_zero.mpr unquoted, around.1,
    around.2]

theorem FramePlace.unquoted_number {path n : Str} (place : FramePlace path n) : '"' ∉ n := by
  intro quoted
  have decimal := place.decimal '"' quoted
  rw [Platform.isDecimal_ascii '"' (by decide)] at decimal
  exact absurd decimal (by decide)

/-- A frame before another one is in the text up to its `in`, as its path has no quotation
marks. -/
theorem Headed.own {x : Char} {s w path n function : Str} (headed : Headed s)
    (place : FramePlace path n) (same : x :: (s ++ w) = stackFrame path n function) :
    ∃ rest, x :: s = frameHead path ++ (n ++ (", in ".toList ++ rest)) := by
  have shape : (x :: s) ++ w = (frameHead path ++ (n ++ ", in ".toList)) ++ function := by
    rw [List.cons_append, same]
    simp [stackFrame]
  rw [List.append_eq_append_iff] at shape
  rcases shape with ⟨z, short, -⟩ | ⟨rest, whole, -⟩
  · obtain ⟨front, path', n', rest, rfl, place'⟩ := headed
    have ahead : front ++ 'F' :: ((frameHead path').tail ++ (n' ++ (", in ".toList ++ rest)) ++ z) =
        "ile \"".toList ++ (path ++ ("\", line ".toList ++ (n ++ ", in ".toList))) := by
      have tails := congrArg List.tail short
      simp only [frameHead] at tails ⊢
      simpa using tails.symm
    obtain ⟨front', rfl, -⟩ := append_cons_of_not_mem (by decide) ahead
    have few := congrArg (List.count '"') short
    have open' : ("ile \"".toList).count '"' = 1 ∧ (", in ".toList).count '"' = 0 := by decide
    simp only [List.count_append, List.count_cons, count_frameHead place.unquoted,
      count_frameHead place'.unquoted, List.count_eq_zero.mpr place.unquoted_number, open'.1,
      open'.2] at few
    omega
  · exact ⟨rest, by rw [whole]; simp⟩

/-- The first frame of a text that has one takes the rest of the line, whatever it is. -/
theorem maskFrame_headed {s : Str} (headed : Headed s) :
    ∃ front front' rest, s = front ++ (", in ".toList ++ rest) ∧ ∀ w, w ≠ [] → '\n' ∉ s ++ w →
      maskFrame (s ++ w) = front' ++ (", in ".toList ++ (rest ++ w)) := by
  induction s with
  | nil =>
    obtain ⟨front, path, n, rest, split, -⟩ := headed
    simp [frameHead] at split
  | cons x s ih =>
    by_cases own : ∃ path n rest, x :: s = frameHead path ++ (n ++ (", in ".toList ++ rest)) ∧
        FramePlace path n
    · obtain ⟨path, n, rest, split, place⟩ := own
      refine ⟨frameHead path ++ n, frameHead path ++ "<line>".toList, rest, by simp [split],
        fun w some line => ?_⟩
      have whole : (x :: s) ++ w = stackFrame path n (rest ++ w) := by simp [split, stackFrame]
      rw [whole] at line ⊢
      rw [maskFrame_frame ⟨place, by simp [some]⟩ line]
      simp
    · have later : Headed s := by
        obtain ⟨front, path, n, rest, split, place⟩ := headed
        cases front with
        | nil => exact absurd ⟨path, n, rest, split, place⟩ own
        | cons y front => exact ⟨front, path, n, rest, (List.cons.inj split).2, place⟩
      obtain ⟨front, front', rest, split, each⟩ := ih later
      refine ⟨x :: front, x :: front', rest, by rw [split, List.cons_append], fun w some line => ?_⟩
      rw [List.cons_append, List.mem_cons, not_or] at line
      rw [List.cons_append, maskFrame_cons, each w some line.2, List.cons_append]
      intro path n function parts same
      obtain ⟨rest, split⟩ := later.own parts.toFramePlace same
      exact own ⟨path, n, rest, split, parts.toFramePlace⟩

/-- The texts are one up to a quotation mark or to the first letter of a frame. -/
def Abreast (t t' : Str) : Prop :=
  t' = t ∨ ∃ u c v v', (c = '"' ∨ c = 'F') ∧ t = u ++ c :: v ∧ t' = u ++ c :: v'

omit [UnicodePlatform] in
theorem Abreast.cons {t t' : Str} (abreast : Abreast t t') (c : Char) :
    Abreast (c :: t) (c :: t') := by
  rcases abreast with rfl | ⟨u, d, v, v', mark, rfl, rfl⟩
  · exact .inl rfl
  · exact .inr ⟨c :: u, d, v, v', mark, rfl, rfl⟩

theorem abreast_maskFrame {t : Str} (line : '\n' ∉ t) : Abreast t (maskFrame t) := by
  induction t with
  | nil => exact .inl rfl
  | cons x t ih =>
    by_cases frame : ∃ path n function, FrameParts path n function ∧
        x :: t = stackFrame path n function
    · obtain ⟨path, n, function, parts, same⟩ := frame
      rw [same] at line ⊢
      rw [maskFrame_frame parts line]
      exact .inr ⟨[], 'F', _, _, .inr rfl, rfl, rfl⟩
    · rw [List.mem_cons, not_or] at line
      rw [maskFrame_cons fun path n function parts same => frame ⟨path, n, function, parts, same⟩]
      exact (ih line.2).cons x

theorem Abreast.ends {t t' : Str} (abreast : Abreast t t') (ends : EndsNumber t) :
    EndsNumber t' := by
  rcases abreast with rfl | ⟨u, c, v, v', mark, rfl, rfl⟩
  · exact ends
  · have other : c ∉ pathSigns := by
      rcases mark with rfl | rfl <;> decide
    have past (v : Str) : (c :: v).dropWhile (· ∈ pathSigns) = c :: v := by simp [other]
    simp only [EndsNumber, List.dropWhile_append, past] at ends ⊢
    split
    · rename_i none
      rwa [if_pos none] at ends
    · rename_i some
      rw [if_neg some] at ends
      have nonempty : u.dropWhile (· ∈ pathSigns) ≠ [] := by simpa using some
      rwa [wordAt_append_of_ne_nil nonempty] at ends ⊢

omit [UnicodePlatform] in
theorem Numeral.clear {n : Str} (numeral : Numeral n) {c : Char} (other : c.isDigit = false) :
    c ∉ n := fun hc => by
  rw [numeral.digits c hc] at other
  cases other

/-- Where no frame is in the text before a number, the number is the one of a frame, or stays
with the text before it. -/
theorem maskFrame_beside {s t : Str} (unheaded : ¬ Headed s) (plain : NoDigitEnd s)
    (stops : wordAt isWord t = false) (line : '\n' ∉ s ++ t) :
    (∃ front path out, s = front ++ frameHead path ∧
      ∀ n, Numeral n → maskFrame (s ++ (n ++ t)) = out) ∨
    ∃ t', Abreast t t' ∧ ∀ n, Numeral n → maskFrame (s ++ (n ++ t)) = s ++ (n ++ t') := by
  induction s with
  | nil =>
    refine .inr ⟨maskFrame t, abreast_maskFrame line, fun n numeral => ?_⟩
    exact maskFrame_free (numeral.clear (by decide)) t
  | cons x s ih =>
    by_cases frame : ∃ n path d function, Numeral n ∧ FrameParts path d function ∧
        (x :: s) ++ (n ++ t) = stackFrame path d function
    · obtain ⟨n, path, d, function, numeral, parts, same⟩ := frame
      rcases frame_around plain numeral stops parts same with
        ⟨front, rest, rfl, split, rfl⟩ | ⟨rfl, split, rfl⟩ | ⟨front, -, split⟩
      · refine .inr
          ⟨rest ++ ("\", line ".toList ++ ("<line>".toList ++ (", in ".toList ++ function))),
            .inr ⟨rest, '"', _, _, .inl rfl, rfl, rfl⟩, fun m numeral' => ?_⟩
        have quotes := parts.unquoted
        simp only [List.mem_append, not_or] at quotes
        have parts' : FrameParts (front ++ (m ++ rest)) d function := by
          refine ⟨⟨by simp [numeral'.some], ?_, parts.some, parts.decimal⟩, parts.someFunction⟩
          simp only [List.mem_append, not_or]
          exact ⟨quotes.1, numeral'.clear (by decide), quotes.2.2⟩
        have whole : (x :: s) ++ (m ++ (rest ++ ("\", line ".toList ++ (d ++
            (", in ".toList ++ function))))) = stackFrame (front ++ (m ++ rest)) d function := by
          simp [split, stackFrame, frameHead]
        have line' : '\n' ∉ stackFrame (front ++ (m ++ rest)) d function := by
          rw [← whole]
          simp only [List.mem_append, not_or] at line ⊢
          exact ⟨line.1, numeral'.clear (by decide), line.2⟩
        rw [whole, maskFrame_frame parts' line']
        simp [split, frameHead]
      · refine .inl ⟨[], path, frameHead path ++ ("<line>".toList ++ (", in ".toList ++ function)),
          split, fun m numeral' => ?_⟩
        have parts' : FrameParts path m function := ⟨⟨parts.somePath, parts.unquoted, numeral'.some,
          fun c hc => isDecimal_of_isDigit (numeral'.digits c hc)⟩, parts.someFunction⟩
        have whole : (x :: s) ++ (m ++ (", in ".toList ++ function)) =
            stackFrame path m function := by rw [split, stackFrame]
        have line' : '\n' ∉ stackFrame path m function := by
          rw [← whole]
          simp only [List.mem_append, not_or] at line ⊢
          exact ⟨line.1, numeral'.clear (by decide), line.2⟩
        rw [whole, maskFrame_frame parts' line']
      · exact absurd ⟨[], path, d, front, split, parts.toFramePlace⟩ unheaded
    · have unheaded' : ¬ Headed s := by
        rintro ⟨front, path, n, rest, split, place⟩
        exact unheaded ⟨x :: front, path, n, rest, by rw [split, List.cons_append], place⟩
      have plain' : NoDigitEnd s := by
        cases s with
        | nil => simp [NoDigitEnd]
        | cons y s => exact (noDigitEnd_append (u := [x]) (List.cons_ne_nil y s)).mp plain
      rw [List.cons_append, List.mem_cons, not_or] at line
      have onward {n : Str} (numeral : Numeral n) : maskFrame ((x :: s) ++ (n ++ t)) =
          x :: maskFrame (s ++ (n ++ t)) := maskFrame_cons fun path d function parts same =>
        frame ⟨n, path, d, function, numeral, parts, same⟩
      rcases ih unheaded' plain' line.2 with ⟨front, path, out, split, same⟩ | ⟨t', abreast, same⟩
      · refine .inl
          ⟨x :: front, path, x :: out, by rw [split, List.cons_append], fun n numeral => ?_⟩
        rw [onward numeral, same n numeral]
      · refine .inr ⟨t', abreast, fun n numeral => ?_⟩
        rw [onward numeral, same n numeral, List.cons_append]

/-- What is before a blank makes no number of a text with blanks a location. -/
theorem Located.of_blank {u v rest : Str} (located : Located (u ++ ' ' :: rest)) :
    Located (v ++ ' ' :: rest) := by
  have ending {w rest : Str} (plain : NoDigitEnd (w ++ ' ' :: rest)) (w' : Str) :
      NoDigitEnd (w' ++ ' ' :: rest) :=
    (noDigitEnd_append (List.cons_ne_nil _ _)).mpr
      ((noDigitEnd_append (List.cons_ne_nil _ _)).mp plain)
  rcases located with plain | ⟨path, line, split, plain, numeral⟩
  · exact .inl (ending plain v)
  · rw [List.append_eq_append_iff] at split
    rcases split with ⟨z, rfl, past⟩ | ⟨z, rfl, past⟩
    · cases z with
      | nil => exact absurd (List.cons.inj past).1 (by decide)
      | cons c z =>
        obtain ⟨rfl, rfl⟩ := List.cons.inj past
        exact .inr ⟨v ++ ' ' :: z, line, by simp, ending plain v, numeral⟩
    · have blank : ' ' ∈ ':' :: line := by
        rw [past]
        simp
      rcases List.mem_cons.mp blank with mark | inside
      · exact absurd mark (by decide)
      · exact absurd (numeral.digits ' ' inside) (by decide)

/-- The number of a location stays beside the frames of its line. -/
theorem maskFrame_location {before : Str} (located : Located before) (line : '\n' ∉ before) :
    ∃ before', Located before' ∧ ∀ after, EndsNumber after → '\n' ∉ after →
      ∃ after', EndsNumber after' ∧ (after = [] → after' = []) ∧
        ∀ n, Numeral n → maskFrame (numbered before n after) = numbered before' n after' := by
  have colon (n after : Str) : numbered before n after = (before ++ [':']) ++ (n ++ after) := by
    simp [numbered]
  have last : (before ++ [':']).getLast? = some ':' := by simp
  by_cases headed : Headed (before ++ [':'])
  · obtain ⟨front, front', rest, split, each⟩ := maskFrame_headed headed
    obtain rfl | ⟨rest, c, rfl⟩ := List.eq_nil_or_concat' rest
    · rw [split] at last
      simp at last
    · have shape : before ++ [':'] = (front ++ (", in ".toList ++ rest)) ++ [c] := by simp [split]
      obtain ⟨rfl, same⟩ := List.append_inj' shape rfl
      obtain rfl : ':' = c := List.singleton_inj.mp same
      have blank (front : Str) : front ++ (", in ".toList ++ rest) =
          (front ++ ", in".toList) ++ ' ' :: rest := by simp
      refine ⟨front' ++ (", in ".toList ++ rest), ?_, fun after ends line' => ⟨after, ends, id,
        fun n numeral => ?_⟩⟩
      · rw [blank] at located ⊢
        exact located.of_blank
      · rw [colon, each _ (by simp [numeral.some])]
        · simp [numbered]
        · simp only [List.mem_append, not_or] at line line' ⊢
          exact ⟨⟨line, by decide⟩, numeral.clear (by decide), line'⟩
  · refine ⟨before, located, fun after ends line' => ?_⟩
    have plain : NoDigitEnd (before ++ [':']) := by
      intro c hc
      rw [last] at hc
      obtain rfl := Option.some.inj hc
      exact Platform.isDecimal_ascii ':' (by decide)
    rcases maskFrame_beside headed plain ends.wordAt (t := after) (by simp_all) with
      ⟨front, path, -, split, -⟩ | ⟨after', abreast, same⟩
    · have blank : front ++ frameHead path =
          (front ++ ("File \"".toList ++ (path ++ "\", line".toList))) ++ [' '] := by
        simp [frameHead]
      rw [split, blank, List.getLast?_concat] at last
      exact absurd (Option.some.inj last) (by decide)
    · refine ⟨after', abreast.ends ends, ?_, fun n numeral => ?_⟩
      · rintro rfl
        rcases abreast with rfl | ⟨u, c, v, v', -, none, -⟩
        · rfl
        · simp at none
      · rw [colon, same n numeral]
        simp [numbered]

/-- The number behind `line` in a frame is written over, or stays behind `line`. -/
theorem maskFrame_line {front rest : Str} (line : '\n' ∉ front ++ rest) :
    (∃ out, ∀ n, Numeral n → maskFrame (front ++ (", line ".toList ++ (n ++ ',' :: rest))) = out) ∨
    ∃ front' rest', ∀ n, Numeral n → maskFrame (front ++ (", line ".toList ++ (n ++ ',' :: rest))) =
      front' ++ (", line ".toList ++ (n ++ ',' :: rest')) := by
  have whole (front n rest : Str) : front ++ (", line ".toList ++ (n ++ ',' :: rest)) =
      (front ++ ", line ".toList) ++ (n ++ ',' :: rest) := by simp
  have line' : '\n' ∉ (front ++ ", line ".toList) ++ ',' :: rest := by
    simp only [List.mem_append, List.mem_cons, not_or] at line ⊢
    exact ⟨⟨line.1, by decide⟩, by decide, line.2⟩
  by_cases headed : Headed (front ++ ", line ".toList)
  · obtain ⟨first, first', last, split, each⟩ := maskFrame_headed headed
    refine .inr ?_
    obtain ⟨last', rfl⟩ : ∃ last', last = last' ++ ", line ".toList := by
      have shape : (first ++ ", in ".toList) ++ last = front ++ ", line ".toList := by
        rw [split, List.append_assoc]
      rw [List.append_eq_append_iff] at shape
      rcases shape with ⟨z, -, behind⟩ | ⟨z, ends, past⟩
      · exact ⟨z, behind⟩
      · have table : ∀ k ≤ 7, (", line ".toList.take k <:+ ", in ".toList ∨
            ", in ".toList <:+ ", line ".toList.take k) → k = 0 := by decide
        have start : z = ", line ".toList.take z.length := by rw [past, List.take_left]
        have short := congrArg List.length past
        have beside := List.suffix_or_suffix_of_suffix (List.suffix_append front z)
          (ends ▸ List.suffix_append first ", in ".toList)
        rw [start] at beside
        have none := table z.length (by simp at short; omega) beside
        rw [List.length_eq_zero_iff.mp none, List.nil_append] at past
        exact ⟨[], past.symm⟩
    refine ⟨first' ++ (", in ".toList ++ last'), rest, fun n numeral => ?_⟩
    rw [whole, each _ (by simp)]
    · simp
    · simp only [List.mem_append, not_or] at line' ⊢
      exact ⟨line'.1, numeral.clear (by decide), line'.2⟩
  · have plain : NoDigitEnd (front ++ ", line ".toList) := by
      intro c hc
      obtain rfl : ' ' = c := by simpa using hc
      exact Platform.isDecimal_ascii ' ' (by decide)
    have stops : wordAt isWord (',' :: rest) = false := by
      rw [wordAt, isWord, Platform.isAlnum_ascii ',' (by decide)]
      decide
    rcases maskFrame_beside headed plain stops line' with ⟨-, -, out, -, same⟩ | ⟨t', abreast, same⟩
    · exact .inl ⟨out, fun n numeral => by rw [whole, same n numeral]⟩
    · obtain ⟨rest', rfl⟩ : ∃ rest', t' = ',' :: rest' := by
        rcases abreast with rfl | ⟨u, c, v, v', mark, split, rfl⟩
        · exact ⟨rest, rfl⟩
        · cases u with
          | nil =>
            obtain ⟨rfl, -⟩ := List.cons.inj split
            simp at mark
          | cons d u =>
            obtain ⟨rfl, -⟩ := List.cons.inj split
            exact ⟨_, rfl⟩
      exact .inr ⟨front, rest', fun n numeral => by rw [whole, same n numeral, whole]⟩

end Frames

end LogLens
