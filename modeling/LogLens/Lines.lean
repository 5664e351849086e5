import LogLens.Platform

/-! The lines of a text: what `str.splitlines` does before a piece of one line, in it and behind
it, and what `str.join` makes of the lines. -/

namespace LogLens

/-- No character of the text ends a line. -/
def OneLine (s : Str) : Prop := ∀ c ∈ s, isLineEnd c = false

/-- A line begins behind the text. -/
def LineStart (s : Str) : Prop := ∀ c ∈ s.getLast?, isLineEnd c = true

theorem OneLine.no_newline {s : Str} (line : OneLine s) : '\n' ∉ s := fun newline =>
  absurd (line '\n' newline) (by decide)

theorem splitlinesFrom_cons {c : Char} {rest : Str} (current : Str)
    (alone : ∀ rest', c = '\r' → rest ≠ '\n' :: rest') : splitlinesFrom current (c :: rest) =
      if isLineEnd c then current.reverse :: splitlinesFrom [] rest
      else splitlinesFrom (c :: current) rest := by
  rw [splitlinesFrom]
  exact fun rest' return' newline => alone rest' return' newline

theorem splitlinesFrom_inside {x : Str} (inside : OneLine x) (current rest : Str) :
    splitlinesFrom current (x ++ rest) = splitlinesFrom (x.reverse ++ current) rest := by
  induction x generalizing current with
  | nil => rfl
  | cons c x ih =>
    rw [OneLine, List.forall_mem_cons] at inside
    have other : c ≠ '\r' := by
      rintro rfl
      exact absurd inside.1 (by decide)
    rw [List.cons_append, splitlinesFrom_cons current fun _ same => absurd same other,
      if_neg (by simp [inside.1]), ih inside.2]
    simp

/-- A line that has begun goes on to the first line end of the rest. -/
theorem splitlinesFrom_open (rest : Str) : ∃ line lines, OneLine line ∧ line <+: rest ∧
    ∀ current, current ≠ [] → splitlinesFrom current rest = (current.reverse ++ line) :: lines := by
  induction rest with
  | nil =>
    refine ⟨[], [], by simp [OneLine], List.prefix_rfl, fun current some => ?_⟩
    simp [splitlinesFrom, some]
  | cons c rest ih =>
    by_cases pair : c = '\r' ∧ ∃ rest', rest = '\n' :: rest'
    · obtain ⟨rfl, rest', rfl⟩ := pair
      refine ⟨[], splitlinesFrom [] rest', by simp [OneLine], List.nil_prefix, fun current _ => ?_⟩
      rw [splitlinesFrom, List.append_nil]
    · have alone (rest' : Str) (return' : c = '\r') : rest ≠ '\n' :: rest' := fun newline =>
        pair ⟨return', rest', newline⟩
      by_cases ends : isLineEnd c = true
      · refine ⟨[], splitlinesFrom [] rest, by simp [OneLine], List.nil_prefix, fun current _ => ?_⟩
        rw [splitlinesFrom_cons current alone, if_pos ends, List.append_nil]
      · obtain ⟨line, lines, inside, start, each⟩ := ih
        refine ⟨c :: line, lines, ?_, List.cons_prefix_cons.mpr ⟨rfl, start⟩, fun current _ => ?_⟩
        · exact List.forall_mem_cons.mpr ⟨Bool.eq_false_iff.mpr ends, inside⟩
        · rw [splitlinesFrom_cons current alone, if_neg ends, each _ (List.cons_ne_nil _ _)]
          simp

/-- The lines of a text, and the line that is open at its end. -/
theorem splitlinesFrom_front (current front : Str) (inside : OneLine current) :
    ∃ lines done line, current.reverse ++ front = done ++ line ∧ LineStart done ∧ OneLine line ∧
      ∀ rest, (∀ c ∈ rest.head?, isLineEnd c = false) →
        splitlinesFrom current (front ++ rest) = lines ++ splitlinesFrom line.reverse rest := by
  have newLine {done : Str} (start : LineStart done) {e : Char} (ends : isLineEnd e = true)
      (s : Str) : LineStart (s ++ e :: done) := by
    intro c hc
    cases done with
    | nil =>
      obtain rfl : e = c := by simpa using hc
      exact ends
    | cons d done =>
      rw [List.getLast?_append_of_ne_nil s (List.cons_ne_nil _ _), List.getLast?_cons_cons] at hc
      exact start c hc
  fun_induction splitlinesFrom current front with
  | case1 current | case2 current =>
    refine ⟨[], [], current.reverse, by simp, by simp [LineStart], ?_, fun rest _ => by simp⟩
    simpa [OneLine] using inside
  | case3 current front ih =>
    obtain ⟨lines, done, line, split, start, own, each⟩ := ih (by simp [OneLine])
    have split' : front = done ++ line := split
    refine ⟨current.reverse :: lines, current.reverse ++ '\r' :: '\n' :: done, line, ?_, ?_, own,
      fun rest stops => ?_⟩
    · simp [split']
    · have ends := newLine start (e := '\n') (by decide) (current.reverse ++ ['\r'])
      simpa using ends
    · rw [List.cons_append, List.cons_append, splitlinesFrom, each rest stops, List.cons_append]
  | case4 current c front alone ends ih =>
    obtain ⟨lines, done, line, split, start, own, each⟩ := ih (by simp [OneLine])
    have split' : front = done ++ line := split
    refine ⟨current.reverse :: lines, current.reverse ++ c :: done, line, by simp [split'],
      newLine start ends _, own, fun rest stops => ?_⟩
    rw [List.cons_append, splitlinesFrom_cons, if_pos ends, each rest stops, List.cons_append]
    intro rest' return' newline
    cases front with
    | nil =>
      obtain rfl : rest = '\n' :: rest' := newline
      exact absurd (stops '\n' rfl) (by decide)
    | cons d front =>
      obtain ⟨rfl, -⟩ := List.cons.inj newline
      exact alone front return' rfl
  | case5 current c front alone ends ih =>
    obtain ⟨lines, done, line, split, start, own, each⟩ :=
      ih (List.forall_mem_cons.mpr ⟨Bool.eq_false_iff.mpr ends, inside⟩)
    refine ⟨lines, done, line, by simpa using split, start, own, fun rest stops => ?_⟩
    rw [List.cons_append, splitlinesFrom_cons, if_neg ends, each rest stops]
    intro rest' return'
    subst return'
    exact absurd rfl ends

theorem joinWith_cons (sep line : Str) (lines : List Str) :
    joinWith sep (line :: lines) = line ++ (lines.map (sep ++ ·)).flatten := by
  induction lines generalizing line with
  | nil => simp [joinWith]
  | cons next lines ih =>
    have later : sep.intercalate (next :: lines) = next ++ (lines.map (sep ++ ·)).flatten := ih next
    rw [joinWith, List.intercalate_cons_cons, later]
    simp

theorem joinWith_append (sep : Str) (done : List Str) (line : Str) (lines : List Str) :
    joinWith sep (done ++ line :: lines) =
      (done.map (· ++ sep)).flatten ++ (line ++ (lines.map (sep ++ ·)).flatten) := by
  induction done with
  | nil => exact joinWith_cons sep line lines
  | cons first done ih =>
    obtain ⟨next, rest, split⟩ := List.exists_cons_of_ne_nil
      (List.append_ne_nil_of_right_ne_nil done (List.cons_ne_nil line lines))
    rw [List.cons_append, split, joinWith, List.intercalate_cons_cons, ← split]
    rw [joinWith] at ih
    rw [ih]
    simp


end LogLens
