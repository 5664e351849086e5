import LogLens.Library.RegexScanning

/-! Substitution is local: a matcher that stops before a character no word goes on at
matches as if the text ended there, and behind such a character as if it began there. -/

namespace BacktrackingRegex

namespace Cursor
variable {α : Type*}

/-- The cursor without the last `n` characters of the text. -/
def cut (n : Nat) (c : Cursor α) : Cursor α :=
  { c with after := c.after.take (c.after.length - n) }

/-- The cursor with more text behind it. -/
def onto (far : List α) (c : Cursor α) : Cursor α := { c with before := c.before ++ far }

end Cursor

section Cutting
variable {κ α : Type*} {test : κ → α → Bool} {word : α → Bool}

theorem length_takeWhile_append (f : α → Bool) (u tail : List α) :
    (u.takeWhile f).length = min ((u ++ tail).takeWhile f).length u.length := by
  induction u with
  | nil => simp
  | cons x u ih =>
    cases passes : f x with
    | true => simp [passes, ih]
    | false => simp [passes]

theorem reach_append (k : κ) (most : Option Nat) (u tail : List α) :
    reach test k most u = min (reach test k most (u ++ tail)) u.length := by
  have lengths := length_takeWhile_append (test k) u tail
  unfold reach
  cases most with
  | none => exact lengths
  | some n =>
    dsimp only
    omega

theorem filter_range' (start count last : Nat) :
    (List.range' start count).filter (fun n => n ≤ last) =
      List.range' start (min count (last + 1 - start)) := by
  induction count generalizing start with
  | zero => simp
  | succ count ih =>
    rw [List.range'_succ, List.filter_cons, ih]
    by_cases within : start ≤ last
    · have size : min (count + 1) (last + 1 - start) =
          min count (last + 1 - (start + 1)) + 1 := by omega
      simp [within, size, List.range'_succ]
    · have none : last + 1 - start = 0 := by omega
      have none' : last + 1 - (start + 1) = 0 := by omega
      simp [within, none, none']

theorem flatMap_filter_of_nil {β γ : Type*} {l : List β} {P : β → Bool} {g : β → List γ}
    (nil : ∀ e ∈ l, P e = false → g e = []) : (l.filter P).flatMap g = l.flatMap g := by
  induction l with
  | nil => rfl
  | cons e l ih =>
    rw [List.forall_mem_cons] at nil
    cases passes : P e with
    | true => rw [List.filter_cons_of_pos passes, List.flatMap_cons, List.flatMap_cons, ih nil.2]
    | false =>
      rw [List.filter_cons_of_neg (by simp [passes]), List.flatMap_cons, nil.1 passes, ih nil.2,
        List.nil_append]

theorem cut_advance {c : Cursor α} {u tail : List α} (here : c.after = u ++ tail) {n : Nat}
    (within : n ≤ u.length) :
    (c.cut tail.length).advance n = (c.advance n).cut tail.length := by
  obtain ⟨before, after, groups⟩ := c
  subst here
  unfold Cursor.cut Cursor.advance
  simp only [List.length_append, Nat.add_sub_cancel, List.take_left', List.length_drop,
    List.take_append_of_le_length within, List.drop_append_of_le_length within]

theorem cut_after {c : Cursor α} {u tail : List α} (here : c.after = u ++ tail) :
    (c.cut tail.length).after = u := by
  simp [Cursor.cut, here]

/-- A way that stops before the tail reads some of what is before it. -/
theorem way_within {p : Pattern κ} {c d : Cursor α} {u tail : List α}
    (here : c.after = u ++ tail) (way : d ∈ ways test word p c)
    (stops : tail.length ≤ d.after.length) :
    ∃ text v, u = text ++ v ∧ c.after = text ++ d.after ∧ d.after = v ++ tail := by
  obtain ⟨text, split, -⟩ := reads_of_mem_ways way
  have both := split
  rw [here, List.append_eq_append_iff] at both
  rcases both with ⟨v, text_eq, past⟩ | ⟨v, u_eq, after_eq⟩
  · have lengths := congrArg List.length past
    rw [List.length_append] at lengths
    obtain rfl : v = [] := List.eq_nil_of_length_eq_zero (by omega)
    exact ⟨text, [], by rw [text_eq, List.append_nil, List.append_nil], split, past.symm⟩
  · exact ⟨text, v, u_eq, split, after_eq⟩

/-- Where the text is cut at a place no word goes on at, the ways are those of the whole
text that stop before it. -/
theorem ways_cut {tail : List α} (stop : wordAt word tail = false) (p : Pattern κ)
    {c : Cursor α} {u : List α} (here : c.after = u ++ tail) :
    ways test word p (c.cut tail.length) =
      ((ways test word p c).filter fun d => tail.length ≤ d.after.length).map
        (Cursor.cut tail.length) := by
  have within {c : Cursor α} {u : List α} (here : c.after = u ++ tail) :
      tail.length ≤ c.after.length := by simp [here]
  induction p generalizing c u with
  | empty => simp [ways, within here]
  | run k least most =>
    have front (n : Nat) (range : n ∈ (List.range' least
        (reach test k most c.after + 1 - least)).reverse) : n ≤ c.after.length := by
      rw [List.mem_reverse, List.mem_range'_1] at range
      have within : n ≤ reach test k most c.after := by omega
      exact (reach_run within).2.1
    have stopped : (List.range' least (reach test k most c.after + 1 - least)).reverse.filter
        ((fun d : Cursor α => decide (tail.length ≤ d.after.length)) ∘ c.advance) =
        (List.range' least (reach test k most u + 1 - least)).reverse := by
      rw [List.filter_congr (q := fun n => decide (n ≤ u.length)), List.filter_reverse,
        filter_range', reach_append k most u tail, ← here]
      · congr 2
        omega
      · intro n hn
        have bound := front n hn
        have size := congrArg List.length here
        rw [List.length_append] at size
        simp only [Function.comp, Cursor.advance, List.length_drop, decide_eq_decide]
        omega
    rw [ways, ways, List.filter_map, List.map_map, stopped, cut_after here]
    refine List.map_congr_left fun n hn => cut_advance here ?_
    rw [List.mem_reverse, List.mem_range'_1, reach_append k most u tail] at hn
    omega
  | seq p q ihp ihq =>
    have beyond (e : Cursor α) (_ : e ∈ ways test word p c)
        (long : decide (tail.length ≤ e.after.length) = false) :
        ((ways test word q e).filter fun d => tail.length ≤ d.after.length).map
          (Cursor.cut tail.length) = [] := by
      rw [List.map_eq_nil_iff, List.filter_eq_nil_iff]
      intro d hd
      obtain ⟨text, split, -⟩ := reads_of_mem_ways hd
      have lengths := congrArg List.length split
      have short := of_decide_eq_false long
      rw [List.length_append] at lengths
      rw [decide_eq_true_eq]
      omega
    rw [ways, ways, ihp here, List.flatMap_map, List.filter_flatMap, List.map_flatMap]
    refine Eq.trans (List.flatMap_congr fun e he => ?_) (flatMap_filter_of_nil beyond)
    obtain ⟨way, stops⟩ := List.mem_filter.mp he
    obtain ⟨-, v, -, -, rest⟩ := way_within here way (of_decide_eq_true stops)
    exact ihq rest
  | alt p q ihp ihq =>
    rw [ways, ways, ihp here, ihq here, List.filter_append, List.map_append]
  | optional p ih =>
    rw [ways, ways, ih here, List.filter_append, List.map_append]
    simp [within here]
  | boundary =>
    have same : wordAt word c.after = wordAt word u := by
      rw [here, wordAt_append_of_stop stop]
    rw [ways, ways, cut_after here, same]
    change (if wordAt word c.before = _ then _ else _) = _
    split
    · rfl
    · simp [within here]
  | notBehind text =>
    rw [ways, ways]
    change (if behind test text.reverse c.before then _ else _) = _
    split
    · rfl
    · simp [within here]
  | group n p ih =>
    rw [ways, ways, ih here, List.filter_map, List.map_map, List.map_map]
    refine List.map_congr_left fun d hd => ?_
    obtain ⟨way, stops⟩ := List.mem_filter.mp hd
    obtain ⟨text, v, u_eq, split, rest⟩ := way_within here way (of_decide_eq_true stops)
    have own : (c.cut tail.length).readUpTo (d.cut tail.length) = c.readUpTo d := by
      rw [readUpTo_eq split]
      exact readUpTo_eq (by rw [cut_after here, cut_after rest, u_eq])
    simp only [Function.comp, own]
    rfl

/-- The pattern does not see the text farther back: it has no boundary, some text is
between, or no word goes on there. -/
def Hides (word : α → Bool) (p : Pattern κ) (before far : List α) : Prop :=
  p.contextFree = true ∨ before ≠ [] ∨ wordAt word far = false

/-- The text farther back, which no lookbehind passes, does not matter. -/
theorem ways_onto {far : List α} (p : Pattern κ)
    (blind : ∀ k ∈ p.lookbehind, ∀ x ∈ far.head?, test k x = false) (c : Cursor α)
    (hides : Hides word p c.before far) :
    ways test word p (c.onto far) = (ways test word p c).map (Cursor.onto far) := by
  have onto_advance (c : Cursor α) (n : Nat) : (c.onto far).advance n = (c.advance n).onto far := by
    simp [Cursor.onto, Cursor.advance]
  have onto_behind (ks : List κ) (before : List α)
      (blind : ∀ k ∈ ks, ∀ x ∈ far.head?, test k x = false) :
      behind test ks (before ++ far) = behind test ks before := by
    induction ks generalizing before with
    | nil => rfl
    | cons k ks ih =>
      cases before with
      | nil =>
        cases far with
        | nil => rfl
        | cons x far => simp [behind, blind k List.mem_cons_self x rfl]
      | cons x before =>
        rw [List.cons_append, behind, behind, ih before fun k hk =>
          blind k (List.mem_cons_of_mem _ hk)]
  induction p generalizing c with
  | empty => rfl
  | run k least most =>
    rw [ways, ways, List.map_map]
    exact List.map_congr_left fun n _ => onto_advance c n
  | seq p q ihp ihq =>
    have left : Hides word p c.before far :=
      hides.imp_left fun free => (Bool.and_eq_true_iff.mp free).1
    have right (e : Cursor α) (he : e ∈ ways test word p c) : Hides word q e.before far := by
      obtain ⟨text, -, before_eq, -⟩ := reads_of_mem_ways he
      rcases hides with free | some | stop
      · exact .inl (Bool.and_eq_true_iff.mp free).2
      · exact .inr (.inl (by simp [before_eq, some]))
      · exact .inr (.inr stop)
    rw [ways, ways, ihp (fun k hk => blind k (List.mem_append_left _ hk)) c left,
      List.flatMap_map, List.map_flatMap]
    exact List.flatMap_congr fun e he =>
      ihq (fun k hk => blind k (List.mem_append_right _ hk)) e (right e he)
  | alt p q ihp ihq =>
    rw [ways, ways, ihp (fun k hk => blind k (List.mem_append_left _ hk)) c
        (hides.imp_left fun free => (Bool.and_eq_true_iff.mp free).1),
      ihq (fun k hk => blind k (List.mem_append_right _ hk)) c
        (hides.imp_left fun free => (Bool.and_eq_true_iff.mp free).2), List.map_append]
  | optional p ih =>
    rw [ways, ways, ih blind c hides, List.map_append]
    rfl
  | boundary =>
    have same : wordAt word (c.before ++ far) = wordAt word c.before := by
      rcases hides with free | some | stop
      · cases free
      · exact wordAt_append_of_ne_nil some far
      · exact wordAt_append_of_stop stop c.before
    rw [ways, ways]
    change (if wordAt word (c.before ++ far) = wordAt word c.after then _ else _) = _
    rw [same]
    split <;> rfl
  | notBehind text =>
    have same : behind test text.reverse (c.onto far).before =
        behind test text.reverse c.before :=
      onto_behind text.reverse c.before fun k hk => blind k (List.mem_reverse.mp hk)
    rw [ways, ways, same]
    split <;> rfl
  | group n p ih =>
    rw [ways, ways, ih blind c hides, List.map_map, List.map_map]
    rfl

theorem first_cut {tail : List α} (stop : wordAt word tail = false) {p : Pattern κ}
    {c : Cursor α} {u : List α} (here : c.after = u ++ tail)
    (within : ∀ d, first test word p c = some d → tail.length ≤ d.after.length) :
    first test word p (c.cut tail.length) =
      (first test word p c).map (Cursor.cut tail.length) := by
  rw [first, ways_cut stop p here, first, List.head?_map]
  cases listed : ways test word p c with
  | nil => rfl
  | cons d ds =>
    have stops := within d (by rw [first, listed]; rfl)
    rw [List.filter_cons_of_pos (by simpa using stops)]
    rfl

/-- A match that stops before the tail is the one of the text without it. -/
theorem first_append {tail : List α} (stop : wordAt word tail = false) {p : Pattern κ}
    {before u : List α} (within : ∀ d, first test word p
      { before := before, after := u ++ tail } = some d → tail.length ≤ d.after.length) :
    first test word p { before := before, after := u ++ tail } =
      (first test word p { before := before, after := u }).map fun d =>
        { d with after := d.after ++ tail } := by
  have here := first_cut stop (c := { before := before, after := u ++ tail }) rfl within
  have cutAfter : (Cursor.cut tail.length { before := before, after := u ++ tail }).after = u :=
    cut_after rfl
  change first test word p { before := before, after := (Cursor.cut _ _).after } = _ at here
  rw [cutAfter] at here
  rw [here]
  cases found : first test word p { before := before, after := u ++ tail } with
  | none => rfl
  | some d =>
    obtain ⟨-, v, -, -, rest⟩ := way_within rfl (List.mem_of_head? found) (within d found)
    rw [Option.map_some, Option.map_some, cut_after rest, ← rest]
    rfl

theorem first_onto {far : List α} {p : Pattern κ}
    (blind : ∀ k ∈ p.lookbehind, ∀ x ∈ far.head?, test k x = false) (c : Cursor α)
    (hides : Hides word p c.before far) :
    first test word p (c.onto far) = (first test word p c).map (Cursor.onto far) := by
  rw [first, ways_onto p blind c hides, List.head?_map, first]

end Cutting

section Substitution
variable {κ α : Type*} {test : κ → α → Bool} {word : α → Bool}

/-- A replacement made of the groups of the match alone. -/
def OfGroups (replacement : Cursor α → List α) : Prop :=
  ∀ d e : Cursor α, d.groups = e.groups → replacement d = replacement e

theorem subFrom_onto {far : List α} {p : Pattern κ}
    (blind : ∀ k ∈ p.lookbehind, ∀ x ∈ far.head?, test k x = false)
    {replacement : Cursor α → List α} (groups : OfGroups replacement) (skip : Nat)
    (before after : List α) (hides : Hides word p before far) :
    subFrom test word p replacement skip (before ++ far) after =
      subFrom test word p replacement skip before after := by
  induction after generalizing before skip with
  | nil => cases skip <;> rfl
  | cons x rest ih =>
    have between : Hides word p (x :: before) far := .inr (.inl (List.cons_ne_nil x before))
    cases skip with
    | succ skip => exact ih skip (x :: before) between
    | zero =>
      have here := first_onto blind { before := before, after := x :: rest } hides
      change first test word p { before := before ++ far, after := x :: rest } = _ at here
      have next (skip : Nat) := ih skip (x :: before) between
      simp only [List.cons_append] at next
      rw [subFrom, subFrom, here]
      cases first test word p { before := before, after := x :: rest } with
      | none =>
        rw [Option.map_none]
        exact congrArg _ (next 0)
      | some d =>
        have same : replacement (d.onto far) = replacement d := groups _ _ rfl
        have after : (d.onto far).after = d.after := rfl
        rw [Option.map_some]
        simp only [next, same, after]

/-- A text is substituted in two parts where no match of the first part reaches into the
second, and no word goes on there. -/
theorem subFrom_append {tail : List α} (stop : wordAt word tail = false) {p : Pattern κ}
    {replacement : Cursor α → List α} (groups : OfGroups replacement) (u : List α) (skip : Nat)
    (before : List α) (short : skip ≤ u.length)
    (within : ∀ front rest, u = front ++ rest → rest ≠ [] → ∀ d, first test word p
      { before := front.reverse ++ before, after := rest ++ tail } = some d →
        tail.length ≤ d.after.length) :
    subFrom test word p replacement skip before (u ++ tail) =
      subFrom test word p replacement skip before u ++
        subFrom test word p replacement 0 (u.reverse ++ before) tail := by
  induction u generalizing before skip with
  | nil =>
    obtain rfl : skip = 0 := Nat.le_zero.mp short
    rfl
  | cons x u ih =>
    have next (skip : Nat) (short : skip ≤ u.length) := ih skip (x :: before) short
      fun front rest split some d found => within (x :: front) rest (by rw [split, List.cons_append])
        some d (by rw [List.reverse_cons, List.append_assoc]; exact found)
    simp only [List.reverse_cons, List.append_assoc, List.singleton_append] at next ⊢
    cases skip with
    | succ skip =>
      rw [List.length_cons] at short
      exact next skip (by omega)
    | zero =>
      have here := first_append stop (within [] (x :: u) rfl (List.cons_ne_nil x u))
      rw [List.reverse_nil, List.nil_append, List.cons_append] at here
      rw [List.cons_append, subFrom, subFrom, here]
      cases found : first test word p { before := before, after := x :: u } with
      | none => exact congrArg (List.cons x) (next 0 (Nat.zero_le _))
      | some d =>
        have same : replacement { d with after := d.after ++ tail } = replacement d :=
          groups _ _ rfl
        have taken : (x :: (u ++ tail)).length - (d.after ++ tail).length =
            (x :: u).length - d.after.length := by
          simp only [List.length_cons, List.length_append]
          omega
        rw [Option.map_some]
        dsimp only
        rw [taken, same]
        cases count : (x :: u).length - d.after.length with
        | zero => exact congrArg (List.cons x) (next 0 (Nat.zero_le _))
        | succ taken =>
          rw [List.length_cons] at count
          dsimp only
          rw [next taken (by omega), List.append_assoc]

/-- A text before a character ends before it or reads it. -/
theorem stops_or_reads {u after rest v : List α} {y : α} (split : rest ++ y :: v = u ++ after) :
    (y :: v).length ≤ after.length ∨ ∃ z, u = rest ++ y :: z ∧ v = z ++ after := by
  rw [List.append_eq_append_iff] at split
  rcases split with ⟨z, u_eq, past⟩ | ⟨z, -, after_eq⟩
  · cases z with
    | nil => exact .inl (congrArg List.length past).le
    | cons x z =>
      obtain ⟨rfl, v_eq⟩ := List.cons.inj past
      exact .inr ⟨z, u_eq, v_eq⟩
  · refine .inl ?_
    rw [after_eq, List.length_append]
    omega

/-- A text is substituted around a character that no match reads, and no word goes on at. -/
theorem sub_split {p : Pattern κ} {replacement : Cursor α → List α} (groups : OfGroups replacement)
    {u v : List α} {y : α} (outside : word y = false)
    (blind : ∀ k ∈ p.lookbehind, test k y = false)
    (apart : ∀ front rest z after, u = front ++ rest → v = z ++ after →
      ¬ Reads test word p front.reverse (rest ++ y :: z) after) :
    sub test word p replacement (u ++ y :: v) =
      sub test word p replacement u ++ y :: sub test word p replacement v := by
  have stop (far : List α) : wordAt word (y :: far) = false := outside
  have within (front rest : List α) (split : u = front ++ rest) (d : Cursor α)
      (found : first test word p { before := front.reverse, after := rest ++ y :: v } = some d) :
      (y :: v).length ≤ d.after.length := by
    obtain ⟨text, ahead, -, reads⟩ := reads_of_first found
    rcases stops_or_reads ahead with stops | ⟨z, rfl, v_eq⟩
    · exact stops
    · exact absurd reads (apart front rest z d.after split v_eq)
  have tail : subFrom test word p replacement 0 [] (u ++ y :: v) =
      subFrom test word p replacement 0 [] u ++
        subFrom test word p replacement 0 (u.reverse ++ []) (y :: v) :=
    subFrom_append (stop v) groups u 0 [] (Nat.zero_le _) fun front rest split _ d found =>
      within front rest split d (by simpa using found)
  have skipped : subFrom test word p replacement 0 (u.reverse ++ []) (y :: v) =
      y :: subFrom test word p replacement 0 (y :: u.reverse) v := by
    rw [List.append_nil, subFrom]
    split
    · rfl
    · rename_i d found
      have stops := within u [] (List.append_nil u).symm d found
      rw [Nat.sub_eq_zero_of_le stops]
  have farther : subFrom test word p replacement 0 ([] ++ y :: u.reverse) v =
      subFrom test word p replacement 0 [] v :=
    subFrom_onto (by simpa using blind) groups 0 [] v (.inr (.inr (stop u.reverse)))
  rw [sub, sub, sub, tail, skipped]
  exact congrArg _ (congrArg _ farther)

/-- No pattern reads across a character that is in none of its classes. -/
theorem sub_barrier {p : Pattern κ} {replacement : Cursor α → List α} (groups : OfGroups replacement)
    {u v : List α} {y : α} (outside : word y = false)
    (blind : ∀ k ∈ p.lookbehind, test k y = false) (avoids : ∀ k ∈ p.classes, test k y = false) :
    sub test word p replacement (u ++ y :: v) =
      sub test word p replacement u ++ y :: sub test word p replacement v := by
  refine sub_split groups outside blind fun front rest z after _ _ reads => ?_
  obtain ⟨k, hk, passes⟩ := reads.classes y (by simp)
  rw [avoids k hk] at passes
  cases passes

/-- A front before tails of one family is substituted alike before all of them, where at
every place of it the match reaches into each tail, in one way, or into none. -/
theorem subFrom_reach {ι : Type*} {p : Pattern κ} (some : 0 < p.least)
    {replacement : Cursor α → List α} (groups : OfGroups replacement) {tails ends : ι → List α}
    (stop : ∀ i, wordAt word (tails i) = false) (placed : List α → Prop) (u before : List α)
    (reach : ∀ front rest, u = front ++ rest → rest ≠ [] →
      (∃ out, placed out ∧ ∀ i, ∃ d, first test word p
        { before := front.reverse ++ before, after := rest ++ tails i } = .some d ∧
          d.after = ends i ∧ replacement d = out) ∨
      ∀ i d, first test word p
        { before := front.reverse ++ before, after := rest ++ tails i } = .some d →
          (tails i).length ≤ d.after.length) :
    (∃ out last, placed last ∧ ∀ i, ∃ b, subFrom test word p replacement 0 before (u ++ tails i) =
      out ++ last ++ subFrom test word p replacement 0 b (ends i)) ∨
    ∀ i, subFrom test word p replacement 0 before (u ++ tails i) =
      subFrom test word p replacement 0 before u ++
        subFrom test word p replacement 0 (u.reverse ++ before) (tails i) := by
  induction h : u.length using Nat.strong_induction_on generalizing u before with
  | _ n ih =>
    subst h
    cases u with
    | nil => exact .inr fun i => rfl
    | cons x u =>
      rcases reach [] (x :: u) rfl (List.cons_ne_nil x u) with ⟨out, isPlaced, hits⟩ | within
      · refine .inl ⟨[], out, isPlaced, fun i => ?_⟩
        obtain ⟨d, found, after, own⟩ := hits i
        rw [List.reverse_nil, List.nil_append] at found
        refine ⟨d.before, ?_⟩
        rw [subFrom_hit replacement found (first_shorter some found), own, after,
          List.nil_append]
      · have here (i : ι) := first_append (stop i) (within i)
        simp only [List.reverse_nil, List.nil_append] at here
        cases found : first test word p { before := before, after := x :: u } with
        | none =>
          have next := ih u.length (by simp) u (x :: before) (fun front rest split some' => by
            simpa using reach (x :: front) rest (by rw [split, List.cons_append]) some') rfl
          have step (tail : List α) (stuck : first test word p
              { before := before, after := x :: u ++ tail } = none) :
              subFrom test word p replacement 0 before (x :: u ++ tail) =
                x :: subFrom test word p replacement 0 (x :: before) (u ++ tail) :=
            subFrom_stuck replacement stuck
          have stuck (i : ι) := (here i).trans (by rw [found, Option.map_none])
          rcases next with ⟨out, last, isPlaced, hits⟩ | same
          · refine .inl ⟨x :: out, last, isPlaced, fun i => ?_⟩
            obtain ⟨b, result⟩ := hits i
            exact ⟨b, by rw [step _ (stuck i), result]; rfl⟩
          · refine .inr fun i => ?_
            rw [step _ (stuck i), same i, subFrom_stuck replacement found]
            simp
        | some d =>
          obtain ⟨text, u_eq, before_eq, -⟩ := reads_of_first found
          dsimp only at u_eq before_eq
          have shorter := first_shorter some found
          have next := ih d.after.length shorter d.after d.before (fun front rest split some' => by
            have there := reach (text ++ front) rest (by rw [u_eq, split, List.append_assoc]) some'
            simpa [before_eq] using there) rfl
          have hit (i : ι) : subFrom test word p replacement 0 before (x :: u ++ tails i) =
              replacement d ++ subFrom test word p replacement 0 d.before (d.after ++ tails i) := by
            have found' := (here i).trans (by rw [found, Option.map_some])
            rw [subFrom_hit replacement found' (first_shorter some found'),
              groups { d with after := d.after ++ tails i } d rfl]
          rcases next with ⟨out, last, isPlaced, hits⟩ | same
          · refine .inl ⟨replacement d ++ out, last, isPlaced, fun i => ?_⟩
            obtain ⟨b, result⟩ := hits i
            exact ⟨b, by rw [hit i, result]; simp⟩
          · refine .inr fun i => ?_
            rw [hit i, same i, subFrom_hit replacement found shorter, u_eq, before_eq]
            simp

end Substitution

end BacktrackingRegex
