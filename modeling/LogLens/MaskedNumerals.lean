import LogLens.MaskedValues

/-! A numeral between spaces: a label rule takes it whole whatever its digits are, or it
is masked as a hexadecimal run from twelve digits on and as a number below. -/

namespace LogLens
open BacktrackingRegex

section Digits

/-- A text of ASCII digits. -/
structure Numeral (v : Str) : Prop where
  some : v ≠ []
  digits : ∀ c ∈ v, c.isDigit = true

theorem digit_cases {c : Char} (digit : c.isDigit = true) : c ∈ "0123456789".toList := by
  have bounds : 48 ≤ c.toNat ∧ c.toNat ≤ 57 := by
    simp only [Char.isDigit, Bool.and_eq_true, decide_eq_true_eq] at digit
    exact digit
  have table : ∀ n ≤ 57, 48 ≤ n → Char.ofNat n ∈ "0123456789".toList := by decide
  have here := table c.toNat bounds.2 bounds.1
  rwa [Char.ofNat_toNat] at here

/-- What both label rules read of a digit. -/
theorem digit_table : ∀ c ∈ "0123456789".toList, IsAscii c ∧
    @CharClass.test asciiPlatform Patterns.idChar c = true ∧ ¬ IsSeparator c ∧
    foldCase c ≠ 'i' := by decide

theorem not_digit_of_avoids [Platform] {k : CharClass}
    (avoids : ∀ c ∈ "0123456789".toList, k.avoids c = true) {c : Char} (digit : c.isDigit = true) :
    k.test c = false := by
  have ascii : ∀ c ∈ "0123456789".toList, IsAscii c := by decide
  exact CharClass.test_of_avoids (ascii c (digit_cases digit)) (avoids c (digit_cases digit))

theorem isDecimal_of_isDigit [Platform] {c : Char} (digit : c.isDigit = true) :
    Platform.isDecimal c = true := by
  have ascii : ∀ c ∈ "0123456789".toList, IsAscii c := by decide
  rw [Platform.isDecimal_ascii c (ascii c (digit_cases digit)), digit]

theorem Numeral.unsigned [UnicodePlatform] {v : Str} (h : Numeral v) (long : 3 ≤ v.length) :
    Unsigned v where
  long := long
  dash hc := absurd (h.digits _ hc) (by decide)
  colon hc := absurd (h.digits _ hc) (by decide)
  at_sign hc := absurd (h.digits _ hc) (by decide)
  solid x hx := not_isSpace_of_isWord (by
    rw [isWord, UnicodePlatform.isAlnum_of_isDecimal x (isDecimal_of_isDigit (h.digits x hx)),
      Bool.true_or])

end Digits

section LabelRules
variable [UnicodePlatform]

/-- A rule that looks back at nothing and begins at no space and no digit. -/
structure LabelRule (p : Pattern CharClass) : Prop where
  progress : 0 < p.least
  blind : p.lookbehind = []
  space : ∀ k ∈ p.firsts, k.avoids ' ' = true
  digit : ∀ k ∈ p.firsts, ∀ c ∈ "0123456789".toList, k.avoids c = true

omit [UnicodePlatform] in
theorem labelRule_requestId : LabelRule Patterns.requestId :=
  ⟨by decide, by decide, by decide, by decide⟩

omit [UnicodePlatform] in
theorem labelRule_labelNumber : LabelRule Patterns.labelNumber :=
  ⟨by decide, by decide, by decide, by decide⟩

variable {p : Pattern CharClass} {replacement : Cursor Char → Str}

theorem LabelRule.subFrom_space (h : LabelRule p) (groups : OfGroups replacement)
    (before rest : Str) :
    subFrom CharClass.test isWord p replacement 0 before (' ' :: rest) =
      ' ' :: reSub p replacement rest := by
  have stuck : first CharClass.test isWord p { before := before, after := ' ' :: rest } = none :=
    first_stuck h.progress (fun k hk => CharClass.test_of_avoids (by decide) (h.space k hk)) before
      rest
  have stop : wordAt isWord (' ' :: before) = false := isWord_mark (by simp)
  have farther : subFrom CharClass.test isWord p replacement 0 ([] ++ ' ' :: before) rest =
      reSub p replacement rest :=
    subFrom_onto (by simp [h.blind]) groups 0 [] rest (.inr (.inr stop))
  rw [subFrom_stuck replacement stuck]
  exact congrArg _ farther

theorem LabelRule.reSub_numeral (h : LabelRule p) (groups : OfGroups replacement) {v : Str}
    (numeral : Numeral v) (right : Option Str) :
    reSub p replacement (beforeSpace v right) =
      beforeSpace v (right.map (reSub p replacement)) := by
  have each (v : Str) (digits : ∀ c ∈ v, c.isDigit = true) (before : Str) :
      subFrom CharClass.test isWord p replacement 0 before (beforeSpace v right) =
        beforeSpace v (right.map (reSub p replacement)) := by
    induction v generalizing before with
    | nil =>
      cases right with
      | none => rfl
      | some right => exact h.subFrom_space groups before right
    | cons c v ih =>
      rw [List.forall_mem_cons] at digits
      have stuck : first CharClass.test isWord p
          { before := before, after := c :: beforeSpace v right } = none :=
        first_stuck h.progress (fun k hk => not_digit_of_avoids (h.digit k hk) digits.1) before
          (beforeSpace v right)
      have step := subFrom_stuck replacement stuck
      have split (r : Option Str) : beforeSpace (c :: v) r = c :: beforeSpace v r := by
        cases r <;> rfl
      rw [split, step, ih digits.2, split]
  exact each v numeral.digits []

end LabelRules

section Swallowed

/-- What a rule leaves behind a numeral. -/
def tailOf (right : Option Str) : Str := beforeSpace [] right

theorem beforeSpace_eq (v : Str) (right : Option Str) :
    beforeSpace v right = v ++ tailOf right := by
  cases right <;> simp [tailOf, beforeSpace]

theorem wordAt_tailOf [UnicodePlatform] (right : Option Str) :
    wordAt isWord (tailOf right) = false := by
  cases right with
  | none => rfl
  | some right => exact isWord_mark (by simp)

/-- The text ends in a label with its separators, which may go on with a space. -/
def EndsInLabel (labels : List Str) (text : Str) : Prop :=
  ∃ label seps, text ++ [' '] = label ++ seps ∧ label.map foldCase ∈ labels ∧
    ∀ c ∈ seps, IsSeparator c

/-- A match of a label, separators and a value without spaces that reaches over a space
has the label before it, unless the label itself goes on behind the space. -/
theorem endsInLabel_of_reach {labels : List Str} {label seps value rest ahead after : Str}
    (named : label.map foldCase ∈ labels) (separators : ∀ c ∈ seps, IsSeparator c)
    (solid : ' ' ∉ value) (split : rest ++ ' ' :: ahead = label ++ (seps ++ value) ++ after)
    (reaches : after.length ≤ ahead.length)
    (whole : ∀ x y, label = x ++ ' ' :: y → ∀ z, ahead ≠ y ++ z) : EndsInLabel labels rest := by
  rw [List.append_assoc, List.append_eq_append_iff] at split
  rcases split with ⟨y, label_eq, past⟩ | ⟨m, rest_eq, split⟩
  · cases y with
    | nil =>
      refine ⟨label, [' '], by rw [label_eq, List.append_nil], named, ?_⟩
      simp [IsSeparator]
    | cons b y =>
      obtain ⟨rfl, rfl⟩ := List.cons.inj past
      exact absurd rfl (whole rest y label_eq _)
  · have notInValue {z : Str} (past : value ++ after = z ++ ' ' :: ahead) : False := by
      rw [List.append_eq_append_iff] at past
      rcases past with ⟨y, -, after_eq⟩ | ⟨y, value_eq, past⟩
      · have lengths := congrArg List.length after_eq
        simp only [List.length_append, List.length_cons] at lengths
        omega
      · cases y with
        | nil =>
          have lengths := congrArg List.length past
          simp only [List.nil_append, List.length_cons] at lengths
          omega
        | cons b y =>
          obtain ⟨rfl, -⟩ := List.cons.inj past
          exact solid (by simp [value_eq])
    rw [List.append_assoc, List.append_eq_append_iff] at split
    rcases split with ⟨z, -, past⟩ | ⟨z, seps_eq, past⟩
    · exact (notInValue past).elim
    · cases z with
      | nil => exact (notInValue (z := []) past.symm).elim
      | cons b z =>
        obtain ⟨rfl, -⟩ := List.cons.inj past
        refine ⟨label, m ++ [' '], by rw [rest_eq, List.append_assoc], named, ?_⟩
        intro c hc
        refine separators c ?_
        rw [seps_eq]
        simp only [List.mem_append, List.mem_cons, List.not_mem_nil, or_false] at hc ⊢
        tauto

variable [UnicodePlatform]

/-- Behind a front a label rule takes every numeral, or none. -/
theorem LabelRule.reaches {p : Pattern CharClass} (h : LabelRule p) {labels : List Str}
    {w : String} (placed : ∃ z, w.toList = z ++ ['>'])
    (ending : ∀ label before : Str, label.map foldCase ∈ labels →
      wordAt isWord (label.reverse ++ before) = true)
    (takes : ∀ before label seps v right, label.map foldCase ∈ labels →
      wordAt isWord before = false → seps ≠ [] → (∀ c ∈ seps, IsSeparator c) → Numeral v →
      ∃ d, first CharClass.test isWord p
          { before := before, after := label ++ (seps ++ (v ++ tailOf right)) } = some d ∧
        d.after = tailOf right ∧ d.groupText 1 = label)
    (within : ∀ before rest v right d, Numeral v → first CharClass.test isWord p
        { before := before, after := rest ++ ' ' :: beforeSpace v right } = some d →
      d.after.length ≤ (beforeSpace v right).length → wordAt isWord before = false ∧
        EndsInLabel labels rest) (left : Str) :
    (∃ out, ∀ v right, Numeral v →
      reSub p (fun d => d.groupText 1 ++ w.toList) (framed (some left) v right) =
        out ++ '>' :: tailOf (right.map (reSub p fun d => d.groupText 1 ++ w.toList))) ∨
    ∀ v right, Numeral v →
      reSub p (fun d => d.groupText 1 ++ w.toList) (framed (some left) v right) =
        framed (some (reSub p (fun d => d.groupText 1 ++ w.toList) left)) v
          (right.map (reSub p fun d => d.groupText 1 ++ w.toList)) := by
  have groups : OfGroups fun d : Cursor Char => d.groupText 1 ++ w.toList := by
    intro d e same
    simp only [Cursor.groupText, same]
  let tails (i : { v : Str // Numeral v } × Option Str) : Str := ' ' :: beforeSpace i.1.1 i.2
  let ends (i : { v : Str // Numeral v } × Option Str) : Str := tailOf i.2
  have stop (i : { v : Str // Numeral v } × Option Str) : wordAt isWord (tails i) = false :=
    isWord_mark (by simp)
  obtain ⟨z, hz⟩ := placed
  have onward (b : Str) (right : Option Str) : subFrom CharClass.test isWord p
      (fun d => d.groupText 1 ++ w.toList) 0 b (tailOf right) =
      tailOf (right.map (reSub p fun d => d.groupText 1 ++ w.toList)) := by
    cases right with
    | none => rfl
    | some right => exact h.subFrom_space groups b right
  have place (front rest : Str) (_ : left = front ++ rest) (_ : rest ≠ []) :
      (∃ out, (∃ z, out = z ++ ['>']) ∧ ∀ i, ∃ d, first CharClass.test isWord p
        { before := front.reverse ++ [], after := rest ++ tails i } = some d ∧
          d.after = ends i ∧ d.groupText 1 ++ w.toList = out) ∨
      ∀ i d, first CharClass.test isWord p
        { before := front.reverse ++ [], after := rest ++ tails i } = some d →
          (tails i).length ≤ d.after.length := by
    rw [List.append_nil]
    by_cases labelled : wordAt isWord front.reverse = false ∧ EndsInLabel labels rest
    · left
      obtain ⟨start, label, seps, split, named, separators⟩ := labelled
      have some : seps ≠ [] := by
        rintro rfl
        rw [List.append_nil] at split
        have word : wordAt isWord (' ' :: rest.reverse) = true := by
          simpa [← split] using ending label [] named
        rw [wordAt, isWord_mark (by simp)] at word
        cases word
      refine ⟨label ++ w.toList, ⟨label ++ z, by rw [hz, List.append_assoc]⟩, fun i => ?_⟩
      obtain ⟨d, found, after, group⟩ := takes _ label seps i.1.1 i.2 named start some separators
        i.1.2
      have text : rest ++ tails i = label ++ (seps ++ (i.1.1 ++ tailOf i.2)) := by
        have whole := congrArg (· ++ beforeSpace i.1.1 i.2) split
        simpa [tails, beforeSpace_eq] using whole
      exact ⟨d, by rw [text, found], after, by rw [group]⟩
    · right
      intro i d found
      by_contra beyond
      have reached : d.after.length ≤ (beforeSpace i.1.1 i.2).length := by
        simp only [tails, List.length_cons] at beyond
        omega
      exact labelled (within _ rest i.1.1 i.2 d i.1.2 found reached)
  rcases subFrom_reach h.progress groups stop (fun out => ∃ z, out = z ++ ['>'])
    left [] place with ⟨out, last, ⟨y, rfl⟩, same⟩ | same
  · refine .inl ⟨out ++ y, fun v right numeral => ?_⟩
    obtain ⟨b, result⟩ := same (⟨v, numeral⟩, right)
    rw [onward] at result
    exact result.trans (by simp)
  · refine .inr fun v right numeral => ?_
    have result := same (⟨v, numeral⟩, right)
    rw [h.subFrom_space groups, h.reSub_numeral groups numeral] at result
    exact result

theorem requestId_reaches (left : Str) :
    (∃ out, ∀ v right, Numeral v →
      reSub Patterns.requestId (fun d => d.groupText 1 ++ ":<request_id>".toList)
          (framed (some left) v right) = out ++ '>' :: tailOf (right.map
        (reSub Patterns.requestId fun d => d.groupText 1 ++ ":<request_id>".toList))) ∨
    ∀ v right, Numeral v →
      reSub Patterns.requestId (fun d => d.groupText 1 ++ ":<request_id>".toList)
          (framed (some left) v right) = framed
        (some (reSub Patterns.requestId (fun d => d.groupText 1 ++ ":<request_id>".toList) left)) v
        (right.map (reSub Patterns.requestId fun d => d.groupText 1 ++ ":<request_id>".toList)) := by
  refine labelRule_requestId.reaches ⟨":<request_id".toList, rfl⟩
    (fun label before named => (requestLabel_words named before []).2) ?_ ?_ left
  · intro before label seps v right named start some separators numeral
    have ids (c : Char) (hc : c ∈ v) : Patterns.idChar.test c = true := by
      obtain ⟨ascii, inClass, -⟩ := digit_table c (digit_cases (numeral.digits c hc))
      rw [test_ascii _ asciiPlatform _ c ascii, inClass]
    refine first_requestId (h := ⟨named, start, ?_, separators, numeral.some, ids⟩) ?_ ?_
    · rw [wordAt_append_of_ne_nil some]
      exact wordAt_eq_false fun c hc => isWord_mark (separators c hc)
    · intro x hx
      exact (digit_table x (digit_cases (numeral.digits x (List.mem_of_mem_head? hx)))).2.2.1
    · intro x hx
      cases right with
      | none => cases hx
      | some right =>
        obtain rfl : ' ' = x := by simpa [tailOf, beforeSpace] using hx
        exact CharClass.test_of_avoids (by decide) (by decide)
  · intro before rest v right d numeral found reached
    have blanks : ∀ l ∈ requestLabels, ∀ i < 12, l[i]? = some ' ' →
        l.drop (i + 1) = "id".toList := by decide
    have short : ∀ l ∈ requestLabels, l.length ≤ 12 := by decide
    obtain ⟨u, split, -, reads⟩ := reads_of_first found
    obtain ⟨label, seps, id, rfl, here⟩ := reads_requestId.mp reads
    refine ⟨here.start, endsInLabel_of_reach here.label here.seps ?_ split reached ?_⟩
    · intro blank
      have passes := here.id ' ' blank
      rw [CharClass.test_of_avoids (by decide) (by decide)] at passes
      cases passes
    · -- a label goes on behind a space with a letter, the numeral begins with a digit
      rintro x y rfl z same
      have named := here.label
      rw [List.map_append, List.map_cons, show foldCase ' ' = ' ' from rfl] at named
      have bound := short _ named
      simp only [List.length_append, List.length_cons, List.length_map] at bound
      have onward := blanks _ named x.length (by omega) (by simp)
      rw [List.append_cons, List.drop_left' (by simp)] at onward
      obtain ⟨a, y, rfl, letter, -⟩ := List.map_eq_cons_iff.mp onward
      obtain ⟨b, v, rfl⟩ := List.exists_cons_of_ne_nil numeral.some
      rw [beforeSpace_eq] at same
      obtain ⟨rfl, -⟩ := List.cons.inj same
      exact (digit_table b (digit_cases (numeral.digits b List.mem_cons_self))).2.2.2 letter

theorem labelNumber_reaches (left : Str) :
    (∃ out, ∀ v right, Numeral v →
      reSub Patterns.labelNumber (fun d => d.groupText 1 ++ "=<id>".toList)
          (framed (some left) v right) = out ++ '>' :: tailOf (right.map
        (reSub Patterns.labelNumber fun d => d.groupText 1 ++ "=<id>".toList))) ∨
    ∀ v right, Numeral v →
      reSub Patterns.labelNumber (fun d => d.groupText 1 ++ "=<id>".toList)
          (framed (some left) v right) = framed
        (some (reSub Patterns.labelNumber (fun d => d.groupText 1 ++ "=<id>".toList) left)) v
        (right.map (reSub Patterns.labelNumber fun d => d.groupText 1 ++ "=<id>".toList)) := by
  refine labelRule_labelNumber.reaches ⟨"=<id".toList, rfl⟩
    (fun label before named => (numberLabel_words named before []).2) ?_ ?_ left
  · intro before label seps v right named start some separators numeral
    exact first_labelNumber ⟨named, start, some, separators, numeral.some,
      fun c hc => isDecimal_of_isDigit (numeral.digits c hc), wordAt_tailOf right⟩
  · intro before rest v right d numeral found reached
    have blanks : ∀ l ∈ numberLabels, ' ' ∉ l := by decide
    obtain ⟨u, split, -, reads⟩ := reads_of_first found
    obtain ⟨label, seps, digits, rfl, here⟩ := reads_labelNumber.mp reads
    refine ⟨here.start, endsInLabel_of_reach here.label here.seps ?_ split reached ?_⟩
    · intro blank
      have decimal := here.digits ' ' blank
      rw [Platform.isDecimal_ascii _ (by decide)] at decimal
      exact absurd decimal (by decide)
    · rintro x y rfl
      exact absurd (List.mem_map.mpr ⟨' ', by simp, rfl⟩) (blanks _ here.label)

theorem LabelRule.reSub_tailOf {p : Pattern CharClass} (h : LabelRule p)
    {replacement : Cursor Char → Str} (groups : OfGroups replacement) (right : Option Str) :
    reSub p replacement (tailOf right) = tailOf (right.map (reSub p replacement)) := by
  cases right with
  | none => rfl
  | some right => exact h.subFrom_space groups [] right

/-- The rules take a numeral behind the text, whatever its digits are. -/
def Takes (rules : List (Pattern CharClass × (Cursor Char → Str))) (left : Option Str) : Prop :=
  ∃ out, ∀ v right, Numeral v → 3 ≤ v.length →
    rules.foldl (fun normalized s => reSub s.1 s.2 normalized) (framed left v right) =
      out ++ '>' :: tailOf (right.map
        (rules.foldl fun normalized s => reSub s.1 s.2 normalized))

/-- The rules leave a numeral behind the text, and work on what is before it and after it. -/
def Leaves (rules : List (Pattern CharClass × (Cursor Char → Str))) (left : Option Str) : Prop :=
  ∀ v right, Numeral v → 3 ≤ v.length →
    rules.foldl (fun normalized s => reSub s.1 s.2 normalized) (framed left v right) =
      framed (left.map (rules.foldl fun normalized s => reSub s.1 s.2 normalized)) v
        (right.map (rules.foldl fun normalized s => reSub s.1 s.2 normalized))

theorem Numeral.leave {v : Str} (numeral : Numeral v) (long : 3 ≤ v.length) :
    ∀ rule ∈ maskingRules.take 6, SplitsAround rule v ∧ reSub rule.1 rule.2 v = v := by
  have split : maskingRules.take 6 = maskingRules.take 4 ++
    [(Patterns.ip, fixedText "<ip>"), (Patterns.memoryAddress, fixedText "<memory_address>")] := rfl
  rw [split, List.forall_mem_append, List.forall_mem_cons, List.forall_mem_singleton]
  refine ⟨(numeral.unsigned long).leave,
    leaves_missing (c := '.') (by decide) (by decide) (by decide) fun dot => ?_,
    leaves_missing (c := 'x') (by decide) (by decide) (by decide) fun x => ?_⟩
  · exact absurd (numeral.digits _ dot) (by decide)
  · exact absurd (numeral.digits _ x) (by decide)

theorem takes_or_leaves (left : Option Str) :
    Takes (maskingRules.take 8) left ∨ Leaves (maskingRules.take 8) left := by
  let requestId (text : Str) : Str :=
    reSub Patterns.requestId (fun d => d.groupText 1 ++ ":<request_id>".toList) text
  let labelNumber (text : Str) : Str :=
    reSub Patterns.labelNumber (fun d => d.groupText 1 ++ "=<id>".toList) text
  have groups (w : String) : OfGroups fun d : Cursor Char => d.groupText 1 ++ w.toList := by
    intro d e same
    simp only [Cursor.groupText, same]
  let values := (maskingRules.take 6).foldl fun normalized s => reSub s.1 s.2 normalized
  have eight (text : Str) : (maskingRules.take 8).foldl
      (fun normalized s => reSub s.1 s.2 normalized) text =
        labelNumber (requestId ((maskingRules.take 6).foldl
          (fun normalized s => reSub s.1 s.2 normalized) text)) := rfl
  have maps (right : Option Str) : right.map ((maskingRules.take 8).foldl
      fun normalized s => reSub s.1 s.2 normalized) =
        ((right.map values).map requestId).map labelNumber := by
    cases right <;> rfl
  have none : Patterns.labelNumber.lookbehind = [] := rfl
  have closed : ∀ k ∈ Patterns.labelNumber.classes, k.avoids '>' = true := by decide
  have six {v : Str} (numeral : Numeral v) (long : 3 ≤ v.length) (right : Option Str) :=
    foldl_framed _ (numeral.leave long) left right
  cases left with
  | none =>
    refine .inr fun v right numeral long => ?_
    rw [eight, six numeral long, maps right]
    exact (congrArg labelNumber (labelRule_requestId.reSub_numeral (groups _) numeral _)).trans
      (labelRule_labelNumber.reSub_numeral (groups _) numeral _)
  | some left =>
    rcases requestId_reaches (values left) with ⟨out, taken⟩ | left₇
    · refine .inl ⟨labelNumber out, fun v right numeral long => ?_⟩
      rw [eight, six numeral long, maps right]
      have barrier (front rest : Str) : labelNumber (front ++ '>' :: rest) =
          labelNumber front ++ '>' :: labelNumber rest := by
        refine sub_barrier (groups _) (isWord_bracket (.inr rfl)) (by simp [none]) ?_
        exact fun k hk => CharClass.test_of_avoids (by decide) (closed k hk)
      calc labelNumber (requestId (framed (some (values left)) v (right.map values)))
        _ = labelNumber (out ++ '>' :: tailOf ((right.map values).map requestId)) :=
          congrArg labelNumber (taken v _ numeral)
        _ = labelNumber out ++ '>' :: labelNumber (tailOf ((right.map values).map requestId)) :=
          barrier _ _
        _ = labelNumber out ++ '>' :: tailOf (((right.map values).map requestId).map labelNumber) :=
          congrArg (labelNumber out ++ '>' :: ·) (labelRule_labelNumber.reSub_tailOf (groups _) _)
    · rcases labelNumber_reaches (requestId (values left)) with ⟨out, taken⟩ | left₈
      · refine .inl ⟨out, fun v right numeral long => ?_⟩
        rw [eight, six numeral long, maps right]
        exact (congrArg labelNumber (left₇ v _ numeral)).trans (taken v _ numeral)
      · refine .inr fun v right numeral long => ?_
        rw [eight, six numeral long, maps right]
        exact (congrArg labelNumber (left₇ v _ numeral)).trans (left₈ v _ numeral)

end Swallowed

section Numbers
variable [UnicodePlatform]

theorem Numeral.fullmatch_hexRun {v : Str} (numeral : Numeral v) (long : 12 ≤ v.length) :
    Fullmatch Patterns.hexRun v := by
  have decimal (c : Char) (hc : c ∈ v) := isDecimal_of_isDigit (numeral.digits c hc)
  have words := isDecimal_words numeral.some decimal [] []
  have table : ∀ c ∈ "0123456789".toList, Patterns.hex.test c = true := by
    have own : ∀ c ∈ "0123456789".toList, IsAscii c ∧
        @CharClass.test asciiPlatform Patterns.hex c = true := by decide
    intro c hc
    rw [test_ascii _ asciiPlatform _ c (own c hc).1, (own c hc).2]
  have shape : Patterns.hexRun = .chain (.boundary :: ([.notBehind [.lit '0', .lit 'x'],
    .atLeast 12 Patterns.hex] ++ [.boundary])) := rfl
  rw [Fullmatch, shape, reads_delimited, words.1, words.2]
  refine ⟨Bool.false_ne_true, ⟨[], v, rfl, ⟨rfl, rfl⟩, v, [], (List.append_nil v).symm, ?_, rfl⟩,
    Bool.false_ne_true.symm⟩
  exact ⟨long, by simp, fun c hc => table c (digit_cases (numeral.digits c hc))⟩

theorem Numeral.fullmatch_longNumber {v : Str} (numeral : Numeral v) (long : 5 ≤ v.length) :
    Fullmatch Patterns.longNumber v := by
  have decimal (c : Char) (hc : c ∈ v) := isDecimal_of_isDigit (numeral.digits c hc)
  have words := isDecimal_words numeral.some decimal [] []
  have shape : Patterns.longNumber = .chain (.boundary :: ([.atLeast 5 .decimal] ++ [.boundary])) :=
    rfl
  rw [Fullmatch, shape, reads_delimited, words.1, words.2]
  exact ⟨Bool.false_ne_true, ⟨v, [], (List.append_nil v).symm, ⟨long, by simp, decimal⟩, rfl⟩,
    Bool.false_ne_true.symm⟩

/-- What is written for a numeral that no label rule takes. -/
def numeralName (v : Str) : Str := if 12 ≤ v.length then "hex".toList else "number".toList

omit [UnicodePlatform] in
theorem numeralName_eq_iff {v w : Str} :
    numeralName v = numeralName w ↔ (12 ≤ v.length ↔ 12 ≤ w.length) := by
  unfold numeralName
  by_cases hv : 12 ≤ v.length <;> by_cases hw : 12 ≤ w.length <;> simp [hv, hw]

theorem numeralName_solid (v : Str) : ∀ c ∈ numeralName v, Platform.isSpace c = false := by
  have letters : ∀ c ∈ "hexnumber".toList, IsAscii c ∧ asciiSpace c = false := by decide
  have named : ∀ c ∈ numeralName v, c ∈ "hexnumber".toList := by
    unfold numeralName
    split <;> decide
  intro c hc
  rw [Platform.isSpace_ascii c (letters c (named c hc)).1, (letters c (named c hc)).2]

theorem Numeral.reSub_name {v : Str} (numeral : Numeral v) (long : 5 ≤ v.length) :
    (maskingRules.drop 8).foldl (fun normalized s => reSub s.1 s.2 normalized) v =
      '<' :: (numeralName v ++ ['>']) := by
  change reSub Patterns.longNumber (fixedText "<number>")
    (reSub Patterns.hexRun (fixedText "<hex>") v) = _
  unfold numeralName
  split
  case isTrue hexadecimal =>
    rw [signedPattern_hexRun.masks _ (numeral.fullmatch_hexRun hexadecimal)]
    refine reSub_missing (k := .decimal) (by decide) List.mem_cons_self fun c hc => ?_
    have plain : ∀ c ∈ "<hex>".toList, IsAscii c ∧ c.isDigit = false := by decide
    exact (Platform.isDecimal_ascii c (plain c hc).1).trans (plain c hc).2
  case isFalse few =>
    have absent : ¬ Occurs CharClass.test isWord Patterns.hexRun v := by
      rintro ⟨front, u, rest, rfl, reads⟩
      have least : 12 ≤ u.length := reads.least_le
      simp only [List.length_append] at few
      omega
    have same : reSub Patterns.hexRun (fixedText "<hex>") v = v := sub_eq_self (by decide) absent
    rw [same]
    exact signedPattern_longNumber.masks _ (numeral.fullmatch_longNumber long)

/-- Rules that read no space work on a value, and on what is around it, apart. -/
theorem foldl_splits (rules : List (Pattern CharClass × (Cursor Char → Str)))
    (splits : ∀ rule ∈ rules, ∀ v, SplitsAround rule v) (left : Option Str) (v : Str)
    (right : Option Str) :
    rules.foldl (fun normalized s => reSub s.1 s.2 normalized) (framed left v right) =
      framed (left.map (rules.foldl fun normalized s => reSub s.1 s.2 normalized))
        (rules.foldl (fun normalized s => reSub s.1 s.2 normalized) v)
        (right.map (rules.foldl fun normalized s => reSub s.1 s.2 normalized)) := by
  induction rules generalizing left v right with
  | nil => simp
  | cons rule rules ih =>
    rw [List.forall_mem_cons] at splits
    rw [List.foldl_cons, splits.1, ih splits.2, Option.map_map, Option.map_map]
    rfl

theorem splitsAround_last : ∀ rule ∈ maskingRules.drop 8, ∀ v, SplitsAround rule v := by
  have split : maskingRules.drop 8 = [(Patterns.hexRun, fixedText "<hex>"),
    (Patterns.longNumber, fixedText "<number>")] := rfl
  rw [split, List.forall_mem_cons, List.forall_mem_singleton]
  exact ⟨splitsAround_barrier (fun _ _ _ => rfl) (by decide),
    splitsAround_barrier (fun _ _ _ => rfl) (by decide)⟩

theorem masked_take_drop (message : Str) : masked message =
    (maskingRules.drop 8).foldl (fun normalized s => reSub s.1 s.2 normalized)
      ((maskingRules.take 8).foldl (fun normalized s => reSub s.1 s.2 normalized)
        (strip message)) := by
  rw [masked, ← List.foldl_append, List.take_append_drop]

theorem Numeral.solid {v : Str} (numeral : Numeral v) : ∀ x ∈ v, Platform.isSpace x = false :=
  fun x hx => not_isSpace_of_isWord (by
    rw [isWord, UnicodePlatform.isAlnum_of_isDecimal x (isDecimal_of_isDigit (numeral.digits x hx)),
      Bool.true_or])

theorem masked_of_leaves {before : Str} (leaves : Leaves (maskingRules.take 8) (leftOf before))
    {v : Str} (numeral : Numeral v) (long : 5 ≤ v.length) (after : Str) :
    masked (valueMessage before v after) =
      framed ((leftOf before).map (maskingRules.foldl fun normalized s => reSub s.1 s.2 normalized))
        ('<' :: (numeralName v ++ ['>']))
        ((rightOf after).map (maskingRules.foldl fun normalized s => reSub s.1 s.2 normalized)) := by
  have whole (right : Option Str) : (right.map ((maskingRules.take 8).foldl
      fun normalized s => reSub s.1 s.2 normalized)).map ((maskingRules.drop 8).foldl
        fun normalized s => reSub s.1 s.2 normalized) =
      right.map (maskingRules.foldl fun normalized s => reSub s.1 s.2 normalized) := by
    cases right <;> rfl
  rw [masked_take_drop, strip_valueMessage before after numeral.some numeral.solid,
    leaves v _ numeral (by omega), foldl_splits _ splitsAround_last, numeral.reSub_name long, whole,
    whole]

theorem masked_of_takes {before : Str} (takes : Takes (maskingRules.take 8) (leftOf before))
    {v w : Str} (hv : Numeral v) (hw : Numeral w) (long : 5 ≤ v.length) (long' : 5 ≤ w.length)
    (after : Str) : masked (valueMessage before v after) = masked (valueMessage before w after) := by
  obtain ⟨out, same⟩ := takes
  have each {v : Str} (numeral : Numeral v) (long : 5 ≤ v.length) := by
    have taken := same v (rightOf after) numeral (by omega)
    rw [← strip_valueMessage before after numeral.some numeral.solid] at taken
    exact taken
  rw [masked_take_drop, masked_take_drop, each hv long, each hw long']

/-- A placeholder stays where it is when white space is collapsed. -/
theorem normalizeMessage_placed (before after : Str) : ∃ front rest, ∀ message name,
    masked message = before ++ '<' :: (name ++ '>' :: after) →
    (∀ c ∈ name, Platform.isSpace c = false) →
    normalizeMessage message = front ++ '<' :: (name ++ '>' :: rest) := by
  have none : Patterns.spaces.lookbehind = [] := rfl
  have closed : ∀ k ∈ Patterns.spaces.classes, k.avoids '<' = true ∧ k.avoids '>' = true := by
    decide
  have barrier {x : Char} (bracket : IsBracket x) (front rest : Str) :
      reSub Patterns.spaces (fixedText " ") (front ++ x :: rest) =
        reSub Patterns.spaces (fixedText " ") front ++
          x :: reSub Patterns.spaces (fixedText " ") rest := by
    refine sub_barrier (fun _ _ _ => rfl) (isWord_bracket bracket) (by simp [none]) fun k hk => ?_
    rcases bracket with rfl | rfl
    · exact CharClass.test_of_avoids (by decide) (closed k hk).1
    · exact CharClass.test_of_avoids (by decide) (closed k hk).2
  have bracket {x : Char} (bracket : IsBracket x) : Platform.isSpace x = false := by
    rcases bracket with rfl | rfl <;> exact Platform.isSpace_ascii _ (by decide)
  refine ⟨(reSub Patterns.spaces (fixedText " ") before).dropWhile Platform.isSpace,
    ((reSub Patterns.spaces (fixedText " ") after).reverse.dropWhile Platform.isSpace).reverse,
    fun message name split solid => ?_⟩
  have same : reSub Patterns.spaces (fixedText " ") name = name :=
    reSub_missing (k := .space) (by decide) List.mem_cons_self solid
  have solid : SolidEnds ('<' :: (name ++ ['>'])) := by
    refine ⟨by simp, ?_, ?_⟩
    · simpa using bracket (.inl rfl)
    · rw [← List.cons_append, List.getLast?_concat]
      simpa using bracket (.inr rfl)
  rw [normalizeMessage_eq, split, barrier (.inl rfl), barrier (.inr rfl), same]
  simpa using solid.strip_append (reSub Patterns.spaces (fixedText " ") before)
    (reSub Patterns.spaces (fixedText " ") after)

/-- Only a numeral can be masked in two ways: as a hexadecimal run or as a number. A label
rule takes both. -/
theorem normalizeMessage_alike_iff {kind : ValueKind} {v w : Str} (hv : kind.Admits v)
    (hw : kind.Admits w) (before after : Str) :
    normalizeMessage (valueMessage before v after) =
        normalizeMessage (valueMessage before w after) ↔
      (kind = .numeral → (12 ≤ v.length ↔ 12 ≤ w.length) ∨ labelMasks before) := by
  have alike (same : masked (valueMessage before v after) = masked (valueMessage before w after)) :
      normalizeMessage (valueMessage before v after) =
        normalizeMessage (valueMessage before w after) := by
    rw [normalizeMessage_eq, normalizeMessage_eq, same]
  cases kind with
  | uuid => simp [alike (masked_uuid hv hw before after)]
  | ipQuad => simp [alike (masked_ip hv hw before after)]
  | memoryAddress => simp [alike (masked_memoryAddress hv hw before after)]
  | numeral =>
    obtain ⟨longV, digitsV⟩ := hv
    obtain ⟨longW, digitsW⟩ := hw
    have numeral {v : Str} (long : 5 ≤ v.length) (digits : ∀ c ∈ v, c.isDigit = true) : Numeral v :=
      ⟨by rintro rfl; simp at long, digits⟩
    have front : strip (before ++ " 00000".toList) =
        framed (leftOf before) "00000".toList none :=
      strip_behindSpace before (by decide) (numeral (by decide) (by decide)).solid
    rcases takes_or_leaves (leftOf before) with takes | leaves
    · have takes' := takes
      obtain ⟨out, same⟩ := takes'
      have taken : labelMasks before := by
        rw [labelMasks, front, same _ none (numeral (by decide) (by decide)) (by decide)]
        simp [tailOf, beforeSpace]
      have equal := alike (masked_of_takes takes (numeral longV digitsV) (numeral longW digitsW)
        longV longW after)
      simp [taken, equal]
    · have left : ¬ labelMasks before := by
        rw [labelMasks, front, leaves _ none (numeral (by decide) (by decide)) (by decide)]
        cases leftOf before <;> simp [framed, behindSpace, beforeSpace]
      have whole (left : Option Str) (name : Str) (right : Option Str) :
          framed left ('<' :: (name ++ ['>'])) right =
            behindSpace left [] ++ '<' :: (name ++ '>' :: tailOf right) := by
        cases left <;> simp [framed, behindSpace, beforeSpace_eq]
      obtain ⟨front, rest, placed⟩ := normalizeMessage_placed
        (behindSpace ((leftOf before).map
          (maskingRules.foldl fun normalized s => reSub s.1 s.2 normalized)) [])
        (tailOf ((rightOf after).map
          (maskingRules.foldl fun normalized s => reSub s.1 s.2 normalized)))
      have each {v : Str} (long : 5 ≤ v.length) (digits : ∀ c ∈ v, c.isDigit = true) :
          normalizeMessage (valueMessage before v after) =
            front ++ '<' :: (numeralName v ++ '>' :: rest) :=
        placed _ _ ((masked_of_leaves leaves (numeral long digits) long after).trans (whole _ _ _))
          (numeralName_solid v)
      rw [each longV digitsV, each longW digitsW]
      simp [left, numeralName_eq_iff]

end Numbers

theorem normalizeMessage_alike_orders : letI := foldingPlatform
    normalizeMessage (valueMessage "order".toList "12345".toList "failed".toList) =
        normalizeMessage (valueMessage "order".toList "678901".toList "failed".toList) ↔
      (ValueKind.numeral = .numeral → (12 ≤ "12345".toList.length ↔ 12 ≤ "678901".toList.length) ∨
        labelMasks "order".toList) :=
  letI := foldingPlatform
  @normalizeMessage_alike_iff _ .numeral _ _ ⟨by decide, by decide⟩ ⟨by decide, by decide⟩ _ _

/-- Two numerals of different lengths fall into two groups. -/
theorem normalizeMessage_alike_fails : letI := foldingPlatform
    ¬ ∀ (kind : ValueKind) (v w : Str), kind.Admits v → kind.Admits w →
      ∀ before after : Str, (∀ c ∈ before ++ after, IsAscii c) →
        normalizeMessage (valueMessage before v after) =
          normalizeMessage (valueMessage before w after) := by
  intro alike
  have same := alike .numeral "12345".toList "123456789012".toList
    ⟨by decide, by decide⟩ ⟨by decide, by decide⟩ [] [] (by simp)
  exact absurd same (by decide)

end LogLens
