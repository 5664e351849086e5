import LogLens.LineLabels
import LogLens.Tokens

/-! Where no match of a rule holds white space, the rule reads every style of the white space
between the tokens alike. -/

namespace LogLens
open BacktrackingRegex

section Crossing
variable [Platform]

/-- A match of the pattern holds white space: cut out, the matches take some along. -/
def crosses (p : Pattern CharClass) (text : Str) : Bool :=
  (reSub p (fixedText "") text).countP Platform.isSpace < text.countP Platform.isSpace

def runRules (rules : List (Pattern CharClass × (Cursor Char → Str))) (text : Str) : Str :=
  rules.foldl (fun normalized s => reSub s.1 s.2 normalized) text

/-- One of the rules has at its turn a match that holds white space. -/
def crossed : List (Pattern CharClass × (Cursor Char → Str)) → Str → Bool
  | [], _ => false
  | rule :: rules, text => crosses rule.1 text || crossed rules (reSub rule.1 rule.2 text)

theorem crossed_append (rules rules' : List (Pattern CharClass × (Cursor Char → Str)))
    (text : Str) : crossed (rules ++ rules') text =
      (crossed rules text || crossed rules' (runRules rules text)) := by
  induction rules generalizing text with
  | nil => rfl
  | cons rule rules ih =>
    rw [List.cons_append, crossed, ih, crossed, Bool.or_assoc]
    rfl

theorem crosses_eq_false {p : Pattern CharClass} (some : 0 < p.least) {text : Str} :
    crosses p text = false ↔ ScanAvoids CharClass.test isWord p Platform.isSpace [] text := by
  have none_more : NoMore CharClass.test isWord p (fun _ => []) Platform.isSpace := noMore_nil
  have fewer := none_more.countP_le some [] text
  rw [crosses, ScanAvoids, decide_eq_false_iff_not, Nat.not_lt]
  exact ⟨fun least => le_antisymm fewer least, fun same => same.ge⟩

end Crossing

section Styles
variable [UnicodePlatform] {p : Pattern CharClass} {replacement : Cursor Char → Str}

/-- A match that goes beyond the word it begins in does so where the white space behind that
word is collapsed. -/
structure StyledPattern (p : Pattern CharClass) : Prop where
  some : 0 < p.least
  starts : ∀ k ∈ p.firsts, k.solid = true
  behind : ∀ k ∈ p.lookbehind, k.solid = true
  bridges : ∀ {before before' t tail : Str} {d : Cursor Char},
    wordAt isWord before = wordAt isWord before' → (∀ c ∈ t, Platform.isSpace c = false) →
    (∀ c ∈ tail.head?, Platform.isSpace c = true) →
    first CharClass.test isWord p { before := before, after := t ++ tail } = .some d →
    d.after.length < tail.length →
    ∃ e, first CharClass.test isWord p { before := before', after := t ++ collapse tail } =
      .some e ∧ e.after.length < (collapse tail).length

/-- A match without white space is replaced by a text without it. -/
def PlacesSolid (p : Pattern CharClass) (replacement : Cursor Char → Str) : Prop :=
  ∀ before u d, first CharClass.test isWord p { before := before, after := u ++ d.after } =
    some d → (∀ x ∈ u, Platform.isSpace x = false) →
      replacement d ≠ [] ∧ ∀ x ∈ replacement d, Platform.isSpace x = false

theorem wordAt_blank {text : Str} (blank : ∀ c ∈ text.head?, Platform.isSpace c = true) :
    wordAt isWord text = false := by
  cases text with
  | nil => rfl
  | cons c text => exact isWord_of_isSpace (blank c rfl)

theorem wordAt_near {near far far' : Str} (blank : ∀ c ∈ far.head?, Platform.isSpace c = true)
    (blank' : ∀ c ∈ far'.head?, Platform.isSpace c = true) :
    wordAt isWord (near ++ far) = wordAt isWord (near ++ far') := by
  rw [wordAt_append_of_stop (wordAt_blank blank), wordAt_append_of_stop (wordAt_blank blank')]

theorem word_split (text : Str) : ∃ t tail, text = t ++ tail ∧
    (∀ c ∈ t, Platform.isSpace c = false) ∧ ∀ c ∈ tail.head?, Platform.isSpace c = true := by
  rcases clear_or_split Platform.isSpace text with solid | ⟨t, c, rest, rfl, solid, space⟩
  · exact ⟨text, [], (List.append_nil text).symm, solid, by simp⟩
  · exact ⟨t, c :: rest, rfl, solid, by simpa using space⟩

/-- Within a word a match depends on the word alone. -/
theorem StyledPattern.first_word (h : StyledPattern p) {near far t tail : Str}
    (blank : ∀ c ∈ far.head?, Platform.isSpace c = true)
    (blankTail : ∀ c ∈ tail.head?, Platform.isSpace c = true)
    (within : ∀ d, first CharClass.test isWord p { before := near ++ far, after := t ++ tail } =
      .some d → tail.length ≤ d.after.length) :
    first CharClass.test isWord p { before := near ++ far, after := t ++ tail } =
      (first CharClass.test isWord p { before := near, after := t }).map fun d =>
        { d with before := d.before ++ far, after := d.after ++ tail } := by
  have blind : ∀ k ∈ p.lookbehind, ∀ x ∈ far.head?, k.test x = false := fun k hk x hx =>
    Bool.eq_false_iff.mpr fun passes => by
      have solid := CharClass.not_isSpace_of_solid (h.behind k hk) passes
      rw [blank x hx] at solid
      cases solid
  have here := first_onto blind { before := near, after := t } (.inr (.inr (wordAt_blank blank)))
  change first CharClass.test isWord p { before := near ++ far, after := t } = _ at here
  rw [first_append (wordAt_blank blankTail) within, here, Option.map_map]
  rfl

theorem StyledPattern.stuck_space (h : StyledPattern p) {c : Char}
    (space : Platform.isSpace c = true) (before rest : Str) :
    first CharClass.test isWord p { before := before, after := c :: rest } = none := by
  refine first_stuck h.some (fun k hk => Bool.eq_false_iff.mpr fun passes => ?_) before rest
  have solid := CharClass.not_isSpace_of_solid (h.starts k hk) passes
  rw [space] at solid
  cases solid

theorem StyledPattern.subFrom_gap (h : StyledPattern p) {gap : Str}
    (spaces : ∀ c ∈ gap, Platform.isSpace c = true) (before rest : Str) :
    subFrom CharClass.test isWord p replacement 0 before (gap ++ rest) =
      gap ++ subFrom CharClass.test isWord p replacement 0 (gap.reverse ++ before) rest := by
  induction gap generalizing before with
  | nil => rfl
  | cons c gap ih =>
    rw [List.forall_mem_cons] at spaces
    rw [List.cons_append, subFrom_stuck _ (h.stuck_space spaces.1 before _), ih spaces.2]
    simp

/-- A match that avoids white space ends in the word that it begins in. -/
theorem within_of_avoids (some : 0 < p.least) {before t tail : Str}
    (blank : ∀ c ∈ tail.head?, Platform.isSpace c = true)
    (avoids : ScanAvoids CharClass.test isWord p Platform.isSpace before (t ++ tail))
    {d : Cursor Char}
    (found : first CharClass.test isWord p { before := before, after := t ++ tail } = .some d) :
    tail.length ≤ d.after.length := by
  obtain ⟨u, split, -⟩ := reads_of_first found
  dsimp only at split
  have clear := List.countP_eq_zero.mp (avoids.hit some found split).1
  rw [List.append_eq_append_iff] at split
  rcases split with ⟨z, rfl, rfl⟩ | ⟨z, -, rest⟩
  · cases z with
    | nil => exact le_rfl
    | cons c z => exact absurd (blank c rfl) (clear c (by simp))
  · rw [rest, List.length_append]
    omega

/-- The text behind `before` is substituted as its collapsed form behind `before'` is. -/
structure SubstitutedAlike (p : Pattern CharClass) (replacement : Cursor Char → Str)
    (before before' after : Str) : Prop where
  same : collapse (subFrom CharClass.test isWord p replacement 0 before after) =
    subFrom CharClass.test isWord p replacement 0 before' (collapse after)
  stops : (∀ c ∈ after.head?, Platform.isSpace c = false) →
    ∀ c ∈ (subFrom CharClass.test isWord p replacement 0 before after).head?,
      Platform.isSpace c = false

theorem StyledPattern.alike_gap (h : StyledPattern p) {before before' rest : Str} {c : Char}
    (space : Platform.isSpace c = true)
    (next : SubstitutedAlike p replacement
      ((c :: rest.takeWhile Platform.isSpace).reverse ++ before) (' ' :: before')
      (rest.dropWhile Platform.isSpace)) :
    SubstitutedAlike p replacement before before' (c :: rest) := by
  refine ⟨?_, fun stops => absurd (stops c rfl) (by simp [space])⟩
  have spaces : ∀ d ∈ c :: rest.takeWhile Platform.isSpace, Platform.isSpace d = true :=
    List.forall_mem_cons.mpr ⟨space, fun d hd => List.mem_takeWhile_imp hd⟩
  have whole : c :: rest = c :: rest.takeWhile Platform.isSpace ++
      rest.dropWhile Platform.isSpace := by
    rw [List.cons_append, List.takeWhile_append_dropWhile]
  have past := dropWhile_gap (List.forall_mem_cons.mp spaces).2 (next.stops (head_dropWhile rest))
  have gap := collapse_gap space (rest.takeWhile Platform.isSpace ++ subFrom CharClass.test isWord p
    replacement 0 ((c :: rest.takeWhile Platform.isSpace).reverse ++ before)
    (rest.dropWhile Platform.isSpace))
  rw [past, next.same] at gap
  rw [collapse_gap space, subFrom_stuck _ (h.stuck_space isSpace_blank _ _), ← gap, whole,
    h.subFrom_gap spaces, List.cons_append]

theorem alike_keep {before before' rest : Str} {c : Char} (solid : Platform.isSpace c = false)
    (stuck : first CharClass.test isWord p { before := before, after := c :: rest } = none)
    (stuck' : first CharClass.test isWord p
      { before := before', after := c :: collapse rest } = none)
    (next : SubstitutedAlike p replacement (c :: before) (c :: before') rest) :
    SubstitutedAlike p replacement before before' (c :: rest) := by
  have alone : ∀ d ∈ [c], Platform.isSpace d = false := by simpa using solid
  have single {text : Str} : collapse (c :: text) = c :: collapse text := collapse_solid alone text
  constructor
  · rw [single, subFrom_stuck _ stuck, subFrom_stuck _ stuck', single, next.same]
  · rw [subFrom_stuck _ stuck]
    exact fun stops => stops

theorem alike_hit (some : 0 < p.least) (places : PlacesSolid p replacement)
    {before before' u rest : Str} {d e : Cursor Char}
    (solid : ∀ c ∈ u, Platform.isSpace c = false)
    (found : first CharClass.test isWord p { before := before, after := u ++ rest } = .some d)
    (found' : first CharClass.test isWord p
      { before := before', after := u ++ collapse rest } = .some e)
    (here : d.after = rest) (here' : e.after = collapse rest)
    (groups : replacement d = replacement e)
    (next : SubstitutedAlike p replacement d.before e.before rest) :
    SubstitutedAlike p replacement before before' (u ++ rest) := by
  subst here
  obtain ⟨someText, solidText⟩ := places before u d found solid
  constructor
  · rw [collapse_solid solid, subFrom_hit _ found (first_shorter some found),
      subFrom_hit _ found' (first_shorter some found'), collapse_solid solidText, next.same, groups,
      here']
  · intro stops c hc
    rw [subFrom_hit _ found (first_shorter some found), List.head?_append_of_ne_nil _ someText]
      at hc
    exact solidText c (List.mem_of_mem_head? hc)

theorem head_collapse {text : Str} (blank : ∀ c ∈ text.head?, Platform.isSpace c = true) :
    ∀ c ∈ (collapse text).head?, Platform.isSpace c = true := by
  intro c hc
  cases text with
  | nil => cases hc
  | cons d text =>
    rw [collapse_gap (blank d rfl)] at hc
    obtain rfl := Option.some.inj hc
    exact isSpace_blank

theorem head_gap {gap before : Str} (some : gap ≠ [])
    (spaces : ∀ c ∈ gap, Platform.isSpace c = true) :
    ∀ c ∈ (gap.reverse ++ before).head?, Platform.isSpace c = true := by
  intro c hc
  rw [List.head?_append_of_ne_nil _ (by simpa using some)] at hc
  exact spaces c (List.mem_reverse.mp (List.mem_of_mem_head? hc))

/-- A rule whose matches avoid white space in the collapsed text reads the text alike. -/
theorem StyledPattern.alike (h : StyledPattern p) (groups : OfGroups replacement)
    (places : PlacesSolid p replacement) {near far far' after : Str}
    (blank : ∀ c ∈ far.head?, Platform.isSpace c = true)
    (blank' : ∀ c ∈ far'.head?, Platform.isSpace c = true)
    (avoids : ScanAvoids CharClass.test isWord p Platform.isSpace (near ++ far')
      (collapse after)) :
    SubstitutedAlike p replacement (near ++ far) (near ++ far') after := by
  induction size : after.length using Nat.strong_induction_on
    generalizing near far far' after with
  | _ n ih =>
    subst size
    obtain ⟨t, tail, rfl, solid, blankTail⟩ := word_split after
    rw [collapse_solid solid] at avoids
    cases t with
    | nil =>
      cases tail with
      | nil => exact ⟨rfl, fun _ c hc => nomatch hc⟩
      | cons c tail =>
        have space := blankTail c rfl
        have shorter : (tail.dropWhile Platform.isSpace).length < ([] ++ c :: tail).length := by
          have within := (List.dropWhile_sublist Platform.isSpace (l := tail)).length_le
          rw [List.nil_append, List.length_cons]
          omega
        rw [List.nil_append, collapse_gap space] at avoids
        refine h.alike_gap space (@ih _ shorter [] _ _ _ ?_ ?_ ?_ rfl)
        · exact head_gap (List.cons_ne_nil _ _) (List.forall_mem_cons.mpr
            ⟨space, fun d hd => List.mem_takeWhile_imp hd⟩)
        · simpa using isSpace_blank
        · exact avoids.keep (h.stuck_space isSpace_blank _ _)
    | cons c t =>
      have within : ∀ d, first CharClass.test isWord p
          { before := near ++ far', after := c :: t ++ collapse tail } = .some d →
          (collapse tail).length ≤ d.after.length := fun d =>
        within_of_avoids h.some (head_collapse blankTail) avoids
      have within' : ∀ d, first CharClass.test isWord p
          { before := near ++ far, after := c :: t ++ tail } = .some d →
          tail.length ≤ d.after.length := by
        intro d found
        refine Nat.le_of_not_lt fun beyond => ?_
        obtain ⟨e, found', beyond'⟩ := h.bridges (wordAt_near blank blank') solid blankTail found
          beyond
        exact absurd (within e found') (Nat.not_le.mpr beyond')
      have here := h.first_word blank blankTail within'
      have here' := h.first_word blank' (head_collapse blankTail) within
      cases found : first CharClass.test isWord p { before := near, after := c :: t } with
      | none =>
        rw [found, Option.map_none] at here here'
        have parts := collapse_solid (List.forall_mem_cons.mp solid).2 tail
        rw [List.cons_append]
        refine alike_keep (solid c List.mem_cons_self) here (by rw [parts]; exact here') ?_
        refine @ih (t ++ tail).length (by simp) (c :: near) _ _ _ blank blank' ?_ rfl
        rw [parts]
        exact avoids.keep here'
      | some d =>
        obtain ⟨u, split, -⟩ := reads_of_first found
        rw [found, Option.map_some] at here here'
        dsimp only at split
        have solidParts := solid
        rw [split, List.forall_mem_append] at solidParts
        rw [split, List.append_assoc] at here here' avoids ⊢
        have shorter : (d.after ++ tail).length < (c :: t ++ tail).length := by
          have shorter := first_shorter h.some found
          rw [List.length_append, List.length_append]
          exact Nat.add_lt_add_right shorter _
        rw [← collapse_solid solidParts.2] at here' avoids
        refine alike_hit h.some places solidParts.1 here here' rfl rfl (groups _ _ rfl) ?_
        refine ih _ shorter blank blank' ?_ rfl
        exact (avoids.hit h.some here' rfl).2

end Styles

end LogLens
