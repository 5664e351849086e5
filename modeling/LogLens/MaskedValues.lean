import LogLens.Labels

/-! Masking does not depend on the masked value: a value between spaces is masked alike
whatever it is, except that a numeral of twelve digits is a hexadecimal run too. -/

namespace LogLens
open BacktrackingRegex

/-- The text with what is left before it and after it, a space between. -/
def behindSpace : Option Str → Str → Str
  | none, v => v
  | some left, v => left ++ ' ' :: v

def beforeSpace (v : Str) : Option Str → Str
  | none => v
  | some right => v ++ ' ' :: right

def framed (left : Option Str) (v : Str) (right : Option Str) : Str :=
  behindSpace left (beforeSpace v right)

section Kinds
variable [Platform]

/-- `pattern.fullmatch(text)` -/
def Fullmatch (p : Pattern CharClass) (v : Str) : Prop := Reads CharClass.test isWord p [] v []

inductive ValueKind
  | uuid | ipQuad | memoryAddress | numeral
  deriving DecidableEq

def ValueKind.Admits : ValueKind → Str → Prop
  | .uuid, v => Fullmatch Patterns.uuid v
  | .ipQuad, v => Fullmatch Patterns.ip v
  | .memoryAddress, v => Fullmatch Patterns.memoryAddress v
  | .numeral, v => 5 ≤ v.length ∧ ∀ c ∈ v, c.isDigit = true

/-- The message with the value between `before` and `after`. -/
def valueMessage (before v after : Str) : Str := before ++ ' ' :: (v ++ ' ' :: after)

/-- A label rule masks the numeral 00000 behind the text. -/
def labelMasks (before : Str) : Prop :=
  ((maskingRules.take 8).foldl (fun normalized s => reSub s.1 s.2 normalized)
    (strip (before ++ " 00000".toList))).getLast? ≠ some '0'

end Kinds

section Framing
variable [Platform]

/-- What `strip` leaves before a value and after it. -/
def leftOf (before : Str) : Option Str :=
  let kept := before.dropWhile Platform.isSpace
  if kept.isEmpty then none else some kept

def rightOf (after : Str) : Option Str := (leftOf after.reverse).map List.reverse

theorem dropWhile_behindSpace (before : Str) {v : Str}
    (stops : ∀ x ∈ v.head?, Platform.isSpace x = false) :
    (before ++ ' ' :: v).dropWhile Platform.isSpace = behindSpace (leftOf before) v := by
  have blank : Platform.isSpace ' ' = true := Platform.isSpace_ascii ' ' (by decide)
  have here : v.dropWhile Platform.isSpace = v := by
    cases v with
    | nil => rfl
    | cons x v => simp [stops x rfl]
  rw [List.dropWhile_append, List.dropWhile_cons_of_pos blank, here, leftOf]
  split <;> rfl

theorem strip_valueMessage (before after : Str) {v : Str} (some : v ≠ [])
    (solid : ∀ x ∈ v, Platform.isSpace x = false) :
    strip (valueMessage before v after) = framed (leftOf before) v (rightOf after) := by
  have head : ∀ x ∈ (v ++ ' ' :: after).head?, Platform.isSpace x = false := by
    cases v with
    | nil => exact absurd rfl some
    | cons y v => simpa using solid y List.mem_cons_self
  have last (far : Str) : ∀ x ∈ (v.reverse ++ far).head?, Platform.isSpace x = false := by
    obtain rfl | ⟨front, y, rfl⟩ := List.eq_nil_or_concat v
    · exact absurd rfl some
    · simpa using solid y (by simp)
  have reversed (left : Option Str) : ∃ far, (behindSpace left (v ++ ' ' :: after)).reverse =
      after.reverse ++ ' ' :: (v.reverse ++ far) ∧
      ∀ w, (w.reverse ++ far).reverse = behindSpace left w := by
    cases left with
    | none => exact ⟨[], by simp [behindSpace], by simp [behindSpace]⟩
    | some left => exact ⟨' ' :: left.reverse, by simp [behindSpace], by simp [behindSpace]⟩
  obtain ⟨far, behind, back⟩ := reversed (leftOf before)
  rw [strip, valueMessage, dropWhile_behindSpace before head, behind,
    dropWhile_behindSpace after.reverse (last far), framed, rightOf]
  cases leftOf after.reverse with
  | none => exact back v
  | some right =>
    have whole := back (v ++ ' ' :: right.reverse)
    simpa [behindSpace, beforeSpace] using whole

theorem strip_behindSpace (before : Str) {v : Str} (some : v ≠ [])
    (solid : ∀ x ∈ v, Platform.isSpace x = false) :
    strip (before ++ ' ' :: v) = framed (leftOf before) v none := by
  have head : ∀ x ∈ v.head?, Platform.isSpace x = false :=
    fun x hx => solid x (List.mem_of_mem_head? hx)
  have last (far : Str) : (v.reverse ++ far).dropWhile Platform.isSpace = v.reverse ++ far := by
    obtain rfl | ⟨front, y, rfl⟩ := List.eq_nil_or_concat v
    · exact absurd rfl some
    · simp [solid y (by simp)]
  rw [strip, dropWhile_behindSpace before head]
  cases leftOf before with
  | none =>
    have whole := last []
    rw [List.append_nil] at whole
    simp [behindSpace, framed, beforeSpace, whole]
  | some left => simp [behindSpace, framed, beforeSpace, last]

end Framing

section Rules
variable [UnicodePlatform]

/-- The rule works on the value, and on what is before and after it, apart. -/
def SplitsAround (rule : Pattern CharClass × (Cursor Char → Str)) (v : Str) : Prop :=
  ∀ left right, reSub rule.1 rule.2 (framed left v right) =
    framed (left.map (reSub rule.1 rule.2)) (reSub rule.1 rule.2 v)
      (right.map (reSub rule.1 rule.2))

/-- A pattern that reads no space. -/
theorem splitsAround_barrier {p : Pattern CharClass} {replacement : Cursor Char → Str}
    (groups : OfGroups replacement)
    (avoids : ∀ k ∈ p.classes ++ p.lookbehind, k.avoids ' ' = true) (v : Str) :
    SplitsAround (p, replacement) v := by
  have split (u w : Str) : reSub p replacement (u ++ ' ' :: w) =
      reSub p replacement u ++ ' ' :: reSub p replacement w := by
    refine sub_barrier groups (isWord_mark (by simp)) ?_ ?_
    · exact fun k hk =>
        CharClass.test_of_avoids (by decide) (avoids k (List.mem_append_right _ hk))
    · exact fun k hk =>
        CharClass.test_of_avoids (by decide) (avoids k (List.mem_append_left _ hk))
  intro left right
  cases left <;> cases right <;> simp [framed, behindSpace, beforeSpace, split]

theorem length_exactly {n : Nat} {k : CharClass} {before u after : Str}
    (reads : Reads CharClass.test isWord (.exactly n k) before u after) : u.length = n :=
  le_antisymm (reads.2.1 n rfl) reads.1

/-- A timestamp with a space has a date before it and a time after it. -/
theorem timestamp_around_space {before u after x y : Str}
    (reads : Reads CharClass.test isWord Patterns.isoTimestamp before u after)
    (split : u = x ++ ' ' :: y) :
    (∃ z c d, x = z ++ ['-', c, d]) ∧ ∃ c d z, y = c :: d :: ':' :: z := by
  obtain ⟨_, _, rfl, ⟨rfl, -⟩, day, _, rfl, isDay, _, times, rfl, isMark, isTimes⟩ := reads
  obtain ⟨c, rfl, mark⟩ := reads_one.mp isMark
  have dayClear := not_mem_of_avoids (c := ' ') (by decide) (by decide) isDay
  have timesClear := not_mem_of_avoids (c := ' ') (by decide) (by decide) isTimes
  obtain ⟨rfl, rfl⟩ : day = x ∧ times = y := by
    have blank : c = ' ' := by
      have inside : ' ' ∈ day ++ (c :: times) := by
        have here : ' ' ∈ x ++ ' ' :: y := by simp
        rw [← split] at here
        simpa using here
      obtain rfl | rfl : c = ' ' ∨ c = 'T' := by simpa [CharClass.test] using mark
      · rfl
      · simp [dayClear, timesClear] at inside
    subst blank
    have same : day ++ ' ' :: times = x ++ ' ' :: y := by simpa using split
    rw [List.append_eq_append_iff] at same
    rcases same with ⟨z, rfl, past⟩ | ⟨z, rfl, past⟩
    · cases z with
      | nil => exact ⟨(List.append_nil day).symm, (List.cons.inj past).2⟩
      | cons b z =>
        obtain ⟨rfl, rfl⟩ := List.cons.inj past
        simp at timesClear
    · cases z with
      | nil => exact ⟨List.append_nil x, (List.cons.inj past).2.symm⟩
      | cons b z =>
        obtain ⟨rfl, rfl⟩ := List.cons.inj past
        simp at dayClear
  constructor
  · obtain ⟨year, _, rfl, -, mark, _, rfl, -, month, _, rfl, -, _, _, rfl, isDash, dom, _, rfl,
      isDom, rfl⟩ := isDay
    obtain ⟨d, e, rfl⟩ := List.length_eq_two.mp (length_exactly isDom)
    rw [reads_lits.mp isDash]
    exact ⟨year ++ (mark ++ month), d, e, by simp⟩
  · obtain ⟨hour, _, rfl, isHour, _, rest, rfl, isColon, -⟩ := isTimes
    obtain ⟨d, e, rfl⟩ := List.length_eq_two.mp (length_exactly isHour)
    rw [reads_lits.mp isColon]
    exact ⟨d, e, rest, rfl⟩

/-- A value too short of signs for a date before a time. -/
theorem splitsAround_isoTimestamp {v : Str} (long : 3 ≤ v.length) (dash : '-' ∉ v)
    (colon : ':' ∉ v) : SplitsAround (Patterns.isoTimestamp, fixedText "<timestamp>") v := by
  have groups : OfGroups (fixedText "<timestamp>") := fun _ _ _ => rfl
  have split {u w : Str} (apart : (∃ z c d, u = z ++ ['-', c, d]) →
      ∀ c d z, w ≠ c :: d :: ':' :: z) :
      reSub Patterns.isoTimestamp (fixedText "<timestamp>") (u ++ ' ' :: w) =
        reSub Patterns.isoTimestamp (fixedText "<timestamp>") u ++
          ' ' :: reSub Patterns.isoTimestamp (fixedText "<timestamp>") w := by
    have none : Patterns.isoTimestamp.lookbehind = [] := rfl
    refine sub_split groups (isWord_mark (by simp)) (by simp [none]) ?_
    rintro front rest z after rfl rfl reads
    obtain ⟨⟨y, c, e, rfl⟩, c', e', z', rfl⟩ := timestamp_around_space reads rfl
    exact absurd rfl (apart ⟨front ++ y, c, e, by simp⟩ c' e' (z' ++ after))
  have ahead (right : Option Str) (c d : Char) (z : Str) :
      beforeSpace v right ≠ c :: d :: ':' :: z := by
    intro same
    match v with
    | [] | [_] | [_, _] => simp at long
    | a :: b :: e :: v => cases right <;> simp_all [beforeSpace]
  have behind (z : Str) (c d : Char) : v ≠ z ++ ['-', c, d] := by
    rintro rfl
    simp at dash
  intro left right
  cases left with
  | none =>
    cases right with
    | none => rfl
    | some right => exact split fun ⟨z, c, d, same⟩ => absurd same (behind z c d)
  | some left =>
    have outer := split (u := left) fun _ => ahead right
    cases right with
    | none => exact outer
    | some right =>
      exact outer.trans (congrArg _ (congrArg _ (split fun ⟨z, c, d, same⟩ =>
        absurd same (behind z c d))))

/-- A pattern leaves a value without a character that it requires. -/
theorem reSub_missing {p : Pattern CharClass} {replacement : Cursor Char → Str}
    (some : 0 < p.least) {k : CharClass} (required : k ∈ p.required) {v : Str}
    (missing : ∀ c ∈ v, k.test c = false) : reSub p replacement v = v := by
  refine sub_eq_self some ?_
  rintro ⟨front, u, rest, rfl, reads⟩
  obtain ⟨x, hx, passes⟩ := reads.required k required
  rw [missing x (by simp [hx])] at passes
  cases passes

/-- Rules that leave the value work on what is before it and after it. -/
theorem foldl_framed (rules : List (Pattern CharClass × (Cursor Char → Str))) {v : Str}
    (leave : ∀ rule ∈ rules, SplitsAround rule v ∧ reSub rule.1 rule.2 v = v)
    (left right : Option Str) :
    rules.foldl (fun normalized s => reSub s.1 s.2 normalized) (framed left v right) =
      framed (left.map (rules.foldl fun normalized s => reSub s.1 s.2 normalized)) v
        (right.map (rules.foldl fun normalized s => reSub s.1 s.2 normalized)) := by
  induction rules generalizing left right with
  | nil => simp
  | cons rule rules ih =>
    rw [List.forall_mem_cons] at leave
    obtain ⟨splits, same⟩ := leave.1
    rw [List.foldl_cons, splits, same, ih leave.2, Option.map_map, Option.map_map]
    rfl

/-- The class of one character alone. -/
def CharClass.isLit (c : Char) : CharClass → Bool
  | .lit d => d = c
  | _ => false

/-- Every class of the pattern is the sign alone, or has word characters without it. -/
def signed (sign : Char) (p : Pattern CharClass) : Bool :=
  p.classes.all fun k => k.isLit sign || (k.wordClass && k.avoids sign)

omit [UnicodePlatform] in
theorem test_isLit [Platform] {c : Char} {k : CharClass} (isLit : k.isLit c = true) (x : Char) :
    k.test x = true ↔ x = c := by
  cases k with
  | lit d =>
    obtain rfl : d = c := of_decide_eq_true isLit
    exact decide_eq_true_iff
  | anyOf | noneOf | decimal | space | letter => cases isLit

theorem signed_cases {sign : Char} {p : Pattern CharClass} (signs : signed sign p = true)
    {before v after : Str} (reads : Reads CharClass.test isWord p before v after) {x : Char}
    (hx : x ∈ v) : x = sign ∨ isWord x = true := by
  obtain ⟨k, hk, passes⟩ := reads.classes x hx
  have class_cases := List.all_eq_true.mp signs k hk
  rw [Bool.or_eq_true, Bool.and_eq_true] at class_cases
  rcases class_cases with isLit | ⟨words, -⟩
  · exact .inl ((test_isLit isLit x).mp passes)
  · exact .inr (CharClass.isWord_of_test words passes)

/-- A value pattern whose texts are words but for `n` equal signs. -/
structure SignedPattern (p : Pattern CharClass) (sign : Char) (n : Nat) : Prop where
  value : ValuePattern p
  ascii : IsAscii sign
  plain : asciiSpace sign = false
  signs : signed sign p = true
  tally : p.tally (CharClass.isLit sign) = some n

/-- The rule of a value pattern masks a text of it whole. -/
theorem SignedPattern.masks {p : Pattern CharClass} {sign : Char} {n : Nat}
    (h : SignedPattern p sign n) (w : String) {v : Str} (full : Fullmatch p v) :
    reSub p (fixedText w) v = w.toList := by
  obtain ⟨hp, ascii, -, signs, tally⟩ := h
  have long := full.least_le
  have some := hp.some
  have uniform : ∀ k ∈ p.classes, ∀ x, k.test x = true → (x == sign) = k.isLit sign := by
    intro k hk x passes
    have class_cases := List.all_eq_true.mp signs k hk
    rw [Bool.or_eq_true, Bool.and_eq_true] at class_cases
    rcases class_cases with isLit | ⟨-, avoids⟩
    · rw [isLit, (test_isLit isLit x).mp passes, beq_self_eq_true]
    · have other : x ≠ sign := by
        rintro rfl
        rw [CharClass.test_of_avoids ascii avoids] at passes
        cases passes
      have single : k.isLit sign = false := Bool.eq_false_iff.mpr fun isLit =>
        other ((test_isLit isLit x).mp passes)
      rw [single]
      simpa using other
  cases found : first CharClass.test isWord p { before := [], after := v } with
  | none => exact absurd full (first_eq_none_iff.mp found v [] (List.append_nil v).symm)
  | some d =>
    obtain ⟨u, split, -, reads⟩ := reads_of_first found
    dsimp only at split reads
    have counted := reads.countP uniform tally
    have whole := full.countP uniform tally
    have stop : wordAt isWord d.after = false := by
      have finish := (hp.stands reads).2
      have spelled : Spelled p u := ⟨_, _, reads⟩
      rw [wordAt_reverse_append (hp.sought.ne_nil spelled), hp.sought.ending u spelled] at finish
      simpa using finish.symm
    have done : d.after = [] := by
      cases rest : d.after with
      | nil => rfl
      | cons x rest' =>
        rw [rest] at stop split
        have same : x = sign := (signed_cases signs full (by simp [split])).resolve_right
          (Bool.eq_false_iff.mp stop)
        rw [split, List.countP_append, counted, List.countP_cons_of_pos (by simp [same])] at whole
        omega
    have shorter : d.after.length < v.length := first_shorter some found
    change subFrom CharClass.test isWord p (fixedText w) 0 [] v = _
    rw [subFrom_hit (fixedText w) found shorter, done]
    exact List.append_nil w.toList

/-- A pattern that requires a character and reads no space leaves a value without it. -/
theorem leaves_missing {p : Pattern CharClass} {w : String} (some : 0 < p.least)
    (avoids : ∀ k ∈ p.classes ++ p.lookbehind, k.avoids ' ' = true) {c : Char}
    (required : p.required.any (CharClass.isLit c) = true) {v : Str} (missing : c ∉ v) :
    SplitsAround (p, fixedText w) v ∧ reSub p (fixedText w) v = v := by
  obtain ⟨k, hk, isLit⟩ := List.any_eq_true.mp required
  refine ⟨splitsAround_barrier (fun _ _ _ => rfl) avoids v, reSub_missing some hk fun x hx => ?_⟩
  refine Bool.eq_false_iff.mpr fun passes => missing ?_
  exact (test_isLit isLit x).mp passes ▸ hx

/-- Of the signs of dates, times and addresses of mail the value has none. -/
structure Unsigned (v : Str) : Prop where
  long : 3 ≤ v.length
  dash : '-' ∉ v
  colon : ':' ∉ v
  at_sign : '@' ∉ v
  solid : ∀ x ∈ v, Platform.isSpace x = false

theorem Unsigned.leave {v : Str} (h : Unsigned v) : ∀ rule ∈ maskingRules.take 4,
    SplitsAround rule v ∧ reSub rule.1 rule.2 v = v := by
  have stamp : (Patterns.isoTimestamp.required.any (CharClass.isLit '-')) = true := by decide
  obtain ⟨k, hk, isLit⟩ := List.any_eq_true.mp stamp
  simp only [maskingRules, substitutions, List.take_succ_cons, List.take_zero,
    List.forall_mem_cons, List.not_mem_nil, false_implies, implies_true, and_true]
  refine ⟨leaves_missing (by decide) (by decide) (by decide) h.dash,
    ⟨splitsAround_isoTimestamp h.long h.dash h.colon, reSub_missing (by decide) hk fun x hx => ?_⟩,
    leaves_missing (by decide) (by decide) (by decide) h.dash,
    leaves_missing (by decide) (by decide) (by decide) h.at_sign⟩
  refine Bool.eq_false_iff.mpr fun passes => h.dash ?_
  exact (test_isLit isLit x).mp passes ▸ hx

/-- The text behind the rule that masks the value does not depend on the value. -/
theorem masked_valueMessage {rulesBefore rulesAfter : List (Pattern CharClass × (Cursor Char → Str))}
    {p : Pattern CharClass} {w : String}
    (split : maskingRules = rulesBefore ++ (p, fixedText w) :: rulesAfter) {v : Str}
    (leave : ∀ rule ∈ rulesBefore, SplitsAround rule v ∧ reSub rule.1 rule.2 v = v)
    (own : SplitsAround (p, fixedText w) v) (masks : reSub p (fixedText w) v = w.toList)
    (some : v ≠ []) (solid : ∀ x ∈ v, Platform.isSpace x = false) (before after : Str) :
    masked (valueMessage before v after) =
      rulesAfter.foldl (fun normalized s => reSub s.1 s.2 normalized)
        (framed (((leftOf before).map (rulesBefore.foldl fun normalized s =>
            reSub s.1 s.2 normalized)).map (reSub p (fixedText w))) w.toList
          (((rightOf after).map (rulesBefore.foldl fun normalized s =>
            reSub s.1 s.2 normalized)).map (reSub p (fixedText w)))) := by
  rw [masked, strip_valueMessage before after some solid, split, List.foldl_append,
    foldl_framed rulesBefore leave, List.foldl_cons, own, masks]

theorem SignedPattern.solid {p : Pattern CharClass} {sign : Char} {n : Nat}
    (h : SignedPattern p sign n) {v : Str} (full : Fullmatch p v) :
    ∀ x ∈ v, Platform.isSpace x = false := by
  intro x hx
  rcases signed_cases h.signs full hx with rfl | word
  · rw [Platform.isSpace_ascii x h.ascii, h.plain]
  · exact not_isSpace_of_isWord word

theorem SignedPattern.ne_nil {p : Pattern CharClass} {sign : Char} {n : Nat}
    (h : SignedPattern p sign n) {v : Str} (full : Fullmatch p v) : v ≠ [] :=
  h.value.sought.ne_nil ⟨_, _, full⟩

theorem SignedPattern.unsigned {p : Pattern CharClass} {sign : Char} {n : Nat}
    (h : SignedPattern p sign n) (long : 3 ≤ p.least)
    (avoids : ∀ k ∈ p.classes, k.avoids '-' = true ∧ k.avoids ':' = true ∧ k.avoids '@' = true)
    {v : Str} (full : Fullmatch p v) : Unsigned v where
  long := long.trans full.least_le
  dash := not_mem_of_avoids (by decide) (fun k hk => (avoids k hk).1) full
  colon := not_mem_of_avoids (by decide) (fun k hk => (avoids k hk).2.1) full
  at_sign := not_mem_of_avoids (by decide) (fun k hk => (avoids k hk).2.2) full
  solid := h.solid full

theorem signedPattern_uuid : SignedPattern Patterns.uuid '-' 4 :=
  ⟨valuePattern_uuid, by decide, by decide, by decide, by decide⟩

theorem signedPattern_ip : SignedPattern Patterns.ip '.' 3 :=
  ⟨valuePattern_ip, by decide, by decide, by decide, by decide⟩

theorem signedPattern_memoryAddress : SignedPattern Patterns.memoryAddress '-' 0 :=
  ⟨valuePattern_memoryAddress, by decide, by decide, by decide, by decide⟩

theorem signedPattern_hexRun : SignedPattern Patterns.hexRun '-' 0 :=
  ⟨valuePattern_hexRun, by decide, by decide, by decide, by decide⟩

theorem signedPattern_longNumber : SignedPattern Patterns.longNumber '-' 0 :=
  ⟨valuePattern_longNumber, by decide, by decide, by decide, by decide⟩

/-- A value that its own rule masks, the rules before it leaving it as it is. -/
theorem masked_alike {p : Pattern CharClass} {sign : Char} {n : Nat} (h : SignedPattern p sign n)
    (avoids : ∀ k ∈ p.classes ++ p.lookbehind, k.avoids ' ' = true)
    {rulesBefore rulesAfter : List (Pattern CharClass × (Cursor Char → Str))} {placed : String}
    (split : maskingRules = rulesBefore ++ (p, fixedText placed) :: rulesAfter)
    (leave : ∀ v, Fullmatch p v → ∀ rule ∈ rulesBefore,
      SplitsAround rule v ∧ reSub rule.1 rule.2 v = v)
    {v w : Str} (hv : Fullmatch p v) (hw : Fullmatch p w) (before after : Str) :
    masked (valueMessage before v after) = masked (valueMessage before w after) := by
  have each {v : Str} (full : Fullmatch p v) := masked_valueMessage split (leave v full)
    (splitsAround_barrier (fun _ _ _ => rfl) avoids v) (h.masks placed full) (h.ne_nil full)
    (h.solid full) before after
  rw [each hv, each hw]

theorem masked_uuid {v w : Str} (hv : Fullmatch Patterns.uuid v) (hw : Fullmatch Patterns.uuid w)
    (before after : Str) :
    masked (valueMessage before v after) = masked (valueMessage before w after) := by
  have split : maskingRules = [] ++ (Patterns.uuid, fixedText "<uuid>") :: maskingRules.drop 1 :=
    rfl
  exact masked_alike signedPattern_uuid (by decide) split (by simp) hv hw before after

theorem masked_ip {v w : Str} (hv : Fullmatch Patterns.ip v) (hw : Fullmatch Patterns.ip w)
    (before after : Str) :
    masked (valueMessage before v after) = masked (valueMessage before w after) := by
  have split : maskingRules = maskingRules.take 4 ++
      (Patterns.ip, fixedText "<ip>") :: maskingRules.drop 5 := rfl
  exact masked_alike signedPattern_ip (by decide) split
    (fun v full => (signedPattern_ip.unsigned (by decide) (by decide) full).leave) hv hw before after

theorem masked_memoryAddress {v w : Str} (hv : Fullmatch Patterns.memoryAddress v)
    (hw : Fullmatch Patterns.memoryAddress w) (before after : Str) :
    masked (valueMessage before v after) = masked (valueMessage before w after) := by
  have split : maskingRules = (maskingRules.take 4 ++ [(Patterns.ip, fixedText "<ip>")]) ++
      (Patterns.memoryAddress, fixedText "<memory_address>") :: maskingRules.drop 6 := rfl
  refine masked_alike signedPattern_memoryAddress (by decide) split (fun v full => ?_) hv hw before
    after
  have dot : '.' ∉ v := not_mem_of_avoids (by decide) (by decide) full
  refine List.forall_mem_append.mpr
    ⟨(signedPattern_memoryAddress.unsigned (by decide) (by decide) full).leave, ?_⟩
  rw [List.forall_mem_singleton]
  exact leaves_missing (by decide) (by decide) (by decide) dot

end Rules

end LogLens
