import LogLens.Library.RegexReadings

/-! Searching and substituting from left to right: what a scan of a text keeps and
what it replaces, and which texts between word boundaries its result can hold. -/

namespace BacktrackingRegex

section Search
variable {κ α : Type*} (test : κ → α → Bool) (word : α → Bool)

/-- The leftmost match, as the matcher reports it. -/
def searchFrom (p : Pattern κ) : (before after : List α) → Option (Cursor α)
  | before, [] => first test word p { before := before, after := [] }
  | before, x :: rest =>
    match first test word p { before := before, after := x :: rest } with
    | some d => some d
    | none => searchFrom p (x :: before) rest

def search (p : Pattern κ) (text : List α) : Option (Cursor α) := searchFrom test word p [] text

/-- Somewhere in the text the pattern reads something. -/
def Occurs (p : Pattern κ) (text : List α) : Prop :=
  ∃ front u rest, text = front ++ (u ++ rest) ∧ Reads test word p front.reverse u rest

/-- A scan of `after` behind `before` with its result. -/
inductive Scan (p : Pattern κ) (replacement : Cursor α → List α) :
    (before after result : List α) → Prop
  | done {before} : Scan p replacement before [] []
  | keep {before x rest result}
      (stuck : first test word p { before := before, after := x :: rest } = none)
      (next : Scan p replacement (x :: before) rest result) :
      Scan p replacement before (x :: rest) (x :: result)
  | hit {before after d result}
      (found : first test word p { before := before, after := after } = some d)
      (next : Scan p replacement d.before d.after result) :
      Scan p replacement before after (replacement d ++ result)

end Search

section Scanning
variable {κ α : Type*} {test : κ → α → Bool} {word : α → Bool}

theorem searchFrom_eq_none_iff {p : Pattern κ} {before after : List α} :
    searchFrom test word p before after = none ↔
      ∀ front rest, after = front ++ rest →
        first test word p { before := front.reverse ++ before, after := rest } = none := by
  induction after generalizing before with
  | nil =>
    constructor
    · intro stuck front rest split
      obtain ⟨rfl, rfl⟩ := List.append_eq_nil_iff.mp split.symm
      exact stuck
    · exact fun stuck => stuck [] [] rfl
  | cons x rest ih =>
    unfold searchFrom
    split
    · rename_i d found
      refine iff_of_false (by simp) fun stuck => ?_
      have here := stuck [] (x :: rest) rfl
      rw [List.reverse_nil, List.nil_append, found] at here
      cases here
    · rename_i here
      rw [ih]
      constructor
      · intro later front after split
        cases front with
        | nil =>
          obtain rfl : x :: rest = after := split
          exact here
        | cons y front =>
          obtain ⟨rfl, rfl⟩ := List.cons.inj split
          rw [List.reverse_cons, List.append_assoc]
          exact later front after rfl
      · intro stuck front after split
        have there := stuck (x :: front) after (by rw [split, List.cons_append])
        rwa [List.reverse_cons, List.append_assoc] at there

/-- A search finds nothing exactly where the pattern does not occur. -/
theorem search_eq_none_iff {p : Pattern κ} {text : List α} :
    search test word p text = none ↔ ¬ Occurs test word p text := by
  unfold search Occurs
  simp only [searchFrom_eq_none_iff, first_eq_none_iff, List.append_nil]
  constructor
  · rintro unread ⟨front, u, rest, rfl, reads⟩
    exact unread front (u ++ rest) rfl u rest rfl reads
  · intro unread front after split u rest inner reads
    exact unread ⟨front, u, rest, by rw [split, inner], reads⟩

theorem first_shorter {p : Pattern κ} (some : 0 < p.least) {c d : Cursor α}
    (found : first test word p c = .some d) : d.after.length < c.after.length := by
  obtain ⟨text, here, -, reads⟩ := reads_of_first found
  have long := reads.least_le
  rw [here, List.length_append]
  omega

theorem subFrom_skip (p : Pattern κ) (replacement : Cursor α → List α) (skip : Nat)
    (before after : List α) (within : skip ≤ after.length) :
    subFrom test word p replacement skip before after =
      subFrom test word p replacement 0 ((after.take skip).reverse ++ before)
        (after.drop skip) := by
  induction skip generalizing before after with
  | zero => rfl
  | succ skip ih =>
    cases after with
    | nil => simp at within
    | cons x rest =>
      rw [List.length_cons] at within
      rw [subFrom, ih (x :: before) rest (by omega)]
      simp

theorem subFrom_stuck {p : Pattern κ} (replacement : Cursor α → List α) {before rest : List α}
    {x : α} (stuck : first test word p { before := before, after := x :: rest } = none) :
    subFrom test word p replacement 0 before (x :: rest) =
      x :: subFrom test word p replacement 0 (x :: before) rest := by
  rw [subFrom, stuck]

/-- A match that reads something is replaced, and the scan goes on behind it. -/
theorem subFrom_hit {p : Pattern κ} (replacement : Cursor α → List α) {before after : List α}
    {d : Cursor α} (found : first test word p { before := before, after := after } = some d)
    (shorter : d.after.length < after.length) :
    subFrom test word p replacement 0 before after =
      replacement d ++ subFrom test word p replacement 0 d.before d.after := by
  obtain ⟨text, here, before_eq, -⟩ := reads_of_first found
  dsimp only at here before_eq
  have lengths := congrArg List.length here
  rw [List.length_append] at lengths
  cases after with
  | nil => simp at shorter
  | cons x rest =>
    have size : (x :: rest).length - d.after.length = (text.length - 1) + 1 := by omega
    have skipped : subFrom test word p replacement text.length before (x :: rest) = _ :=
      subFrom_skip p replacement text.length before (x :: rest) (by omega)
    rw [here, List.take_left', List.drop_left', ← before_eq, ← here] at skipped
    · rw [← skipped, subFrom, found]
      dsimp only
      rw [size]
      dsimp only
      rw [show text.length = (text.length - 1) + 1 by omega, subFrom]
      rfl
    · rfl
    · rfl

/-- A pattern that reads no empty text is substituted by a scan. -/
theorem subFrom_scan {p : Pattern κ} (some : 0 < p.least) (replacement : Cursor α → List α)
    (before after : List α) :
    Scan test word p replacement before after
      (subFrom test word p replacement 0 before after) := by
  induction h : after.length using Nat.strong_induction_on generalizing before after with
  | _ n ih =>
    subst h
    cases after with
    | nil => exact .done
    | cons x rest =>
      cases found : first test word p { before := before, after := x :: rest } with
      | none =>
        rw [subFrom_stuck replacement found]
        exact .keep found (ih _ (by simp) _ _ rfl)
      | some d =>
        have shorter := first_shorter some found
        rw [subFrom_hit replacement found shorter]
        exact .hit found (ih _ shorter _ _ rfl)

theorem sub_scan {p : Pattern κ} (some : 0 < p.least) (replacement : Cursor α → List α)
    (text : List α) : Scan test word p replacement [] text (sub test word p replacement text) :=
  subFrom_scan some replacement [] text

/-- Where a pattern does not occur nothing is replaced. -/
theorem sub_eq_self {p : Pattern κ} (some : 0 < p.least) {replacement : Cursor α → List α}
    {text : List α} (absent : ¬ Occurs test word p text) :
    sub test word p replacement text = text := by
  have unfound (before after result : List α) (split : text = before.reverse ++ after)
      (scan : Scan test word p replacement before after result) : result = after := by
    induction scan with
    | done => rfl
    | keep stuck next ih =>
      rw [ih (by simp [split])]
    | @hit before after d result found next ih =>
      obtain ⟨u, here, -, reads⟩ := reads_of_first found
      dsimp only at here
      refine absurd ⟨before.reverse, u, d.after, by rw [split, here], ?_⟩ absent
      rwa [List.reverse_reverse]
  exact unfound [] text _ rfl (sub_scan some replacement text)

/-- Up to the first match nothing is replaced. -/
theorem subFrom_first_hit {p : Pattern κ} (some : 0 < p.least) (replacement : Cursor α → List α)
    (before after : List α) :
    (∀ front rest, after = front ++ rest →
      first test word p { before := front.reverse ++ before, after := rest } = none) ∨
    ∃ front rest d, after = front ++ rest ∧
      first test word p { before := front.reverse ++ before, after := rest } = .some d ∧
      subFrom test word p replacement 0 before after =
        front ++ (replacement d ++ subFrom test word p replacement 0 d.before d.after) := by
  cases found : first test word p { before := before, after := after } with
  | some d =>
    have shorter := first_shorter some found
    exact .inr ⟨[], after, d, rfl, found, subFrom_hit replacement found shorter⟩
  | none =>
    induction after generalizing before with
    | nil =>
      refine .inl fun front rest split => ?_
      obtain ⟨rfl, rfl⟩ := List.append_eq_nil_iff.mp split.symm
      exact found
    | cons x after ih =>
      rw [subFrom_stuck replacement found]
      have next : (∀ front rest, after = front ++ rest → first test word p
            { before := front.reverse ++ x :: before, after := rest } = .none) ∨
          ∃ front rest d, after = front ++ rest ∧ first test word p
            { before := front.reverse ++ x :: before, after := rest } = .some d ∧
            subFrom test word p replacement 0 (x :: before) after =
              front ++ (replacement d ++ subFrom test word p replacement 0 d.before d.after) := by
        cases found' : first test word p { before := x :: before, after := after } with
        | none => exact ih (x :: before) found'
        | some d =>
          have shorter := first_shorter some found'
          exact .inr ⟨[], after, d, rfl, found', subFrom_hit replacement found' shorter⟩
      rcases next with unfound | ⟨front, rest, d, rfl, hit, result⟩
      · refine .inl fun front rest split => ?_
        cases front with
        | nil =>
          rw [List.nil_append] at split
          rw [← split]
          exact found
        | cons y front =>
          obtain ⟨rfl, rfl⟩ := List.cons.inj split
          simpa using unfound front rest rfl
      · exact .inr ⟨x :: front, rest, d, rfl, by simpa using hit, by rw [result, List.cons_append]⟩

/-- A substitution that places what no match reads grows the text in it, or does nothing. -/
theorem sub_grows {p : Pattern κ} (some : 0 < p.least) {replacement : Cursor α → List α}
    {f : α → Bool} (outside : ∀ k ∈ p.classes, ∀ x, test k x = true → f x = false)
    (placed : ∀ d, 0 < (replacement d).countP f) (text : List α) :
    (¬ Occurs test word p text ∧ sub test word p replacement text = text) ∨
      text.countP f < (sub test word p replacement text).countP f := by
  have kept {before after result : List α} (scan : Scan test word p replacement before after
      result) : after.countP f ≤ result.countP f := by
    induction scan with
    | done => exact le_rfl
    | keep stuck next ih =>
      rw [List.countP_cons, List.countP_cons]
      omega
    | hit found next ih =>
      obtain ⟨u, here, -, reads⟩ := reads_of_first found
      have none : u.countP f = 0 := List.countP_eq_zero.mpr fun x hx => by
        obtain ⟨k, hk, passes⟩ := reads.classes x hx
        simp [outside k hk x passes]
      dsimp only at here
      rw [here, List.countP_append, List.countP_append, none]
      omega
  rcases subFrom_first_hit some replacement [] text with unfound | ⟨front, rest, d, rfl, hit, result⟩
  · have absent : ¬ Occurs test word p text := by
      rintro ⟨front, u, rest, rfl, reads⟩
      exact first_eq_none_iff.mp (unfound front (u ++ rest) rfl) u rest rfl (by simpa using reads)
    exact .inl ⟨absent, sub_eq_self some absent⟩
  · refine .inr ?_
    obtain ⟨u, here, -, reads⟩ := reads_of_first hit
    have none : u.countP f = 0 := List.countP_eq_zero.mpr fun x hx => by
      obtain ⟨k, hk, passes⟩ := reads.classes x hx
      simp [outside k hk x passes]
    have later := kept (subFrom_scan some replacement d.before d.after)
    have more := placed d
    dsimp only at here
    rw [sub, result, here, List.countP_append, List.countP_append, List.countP_append,
      List.countP_append, none]
    omega

/-- A scan keeps a character where the matcher finds nothing, or goes on behind a match. -/
theorem scan_induction {p : Pattern κ} (some : 0 < p.least) {motive : List α → List α → Prop}
    (done : ∀ before, motive before [])
    (keep : ∀ before x rest,
      first test word p { before := before, after := x :: rest } = none →
      motive (x :: before) rest → motive before (x :: rest))
    (hit : ∀ before u d, first test word p { before := before, after := u ++ d.after } = .some d →
      d.before = u.reverse ++ before → motive d.before d.after → motive before (u ++ d.after))
    (before after : List α) : motive before after := by
  have scan := @subFrom_scan _ _ test word p some (fun _ => []) before after
  generalize subFrom test word p (fun _ => []) 0 before after = result at scan
  induction scan with
  | done => exact done _
  | keep stuck next ih => exact keep _ _ _ stuck ih
  | hit found next ih =>
    obtain ⟨u, here, behind, -⟩ := reads_of_first found
    dsimp only at here behind
    subst here
    exact hit _ u _ found behind ih

end Scanning

section Cutting
variable {κ α : Type*} (test : κ → α → Bool) (word : α → Bool)

/-- No match of the scan reads a character with the property: cut out, the matches take
none of them along. -/
def ScanAvoids (p : Pattern κ) (f : α → Bool) (before after : List α) : Prop :=
  (subFrom test word p (fun _ => []) 0 before after).countP f = after.countP f

/-- Each match is replaced by no more characters with the property than it reads. -/
def NoMore (p : Pattern κ) (replacement : Cursor α → List α) (f : α → Bool) : Prop :=
  ∀ before u d, first test word p { before := before, after := u ++ d.after } = some d →
    (replacement d).countP f ≤ u.countP f

end Cutting

section Counting
variable {κ α : Type*} {test : κ → α → Bool} {word : α → Bool} {p : Pattern κ}
  {replacement : Cursor α → List α} {f : α → Bool}

theorem NoMore.countP_le (h : NoMore test word p replacement f) (some : 0 < p.least)
    (before after : List α) :
    (subFrom test word p replacement 0 before after).countP f ≤ after.countP f := by
  induction before, after using @scan_induction _ _ test word p some with
  | done => exact le_rfl
  | keep before x rest stuck ih =>
    rw [subFrom_stuck replacement stuck, List.countP_cons, List.countP_cons]
    omega
  | hit before u d found behind ih =>
    have fewer := h before u d found
    rw [subFrom_hit replacement found (first_shorter some found), List.countP_append,
      List.countP_append]
    omega

theorem noMore_nil : NoMore test word p (fun _ => []) f := fun _ _ _ _ => Nat.zero_le _

/-- What has none of the characters with the property cuts them out. -/
theorem countP_subFrom_clear (some : 0 < p.least)
    (clear : ∀ c d, first test word p c = .some d → (replacement d).countP f = 0)
    (before after : List α) :
    (subFrom test word p replacement 0 before after).countP f =
      (subFrom test word p (fun _ => []) 0 before after).countP f := by
  induction before, after using @scan_induction _ _ test word p some with
  | done => rfl
  | keep before x rest stuck ih =>
    rw [subFrom_stuck _ stuck, subFrom_stuck _ stuck, List.countP_cons, List.countP_cons, ih]
  | hit before u d found behind ih =>
    have shorter := first_shorter some found
    rw [subFrom_hit _ found shorter, subFrom_hit _ found shorter, List.countP_append,
      List.countP_append, clear _ d found, ih]
    rfl

theorem ScanAvoids.keep {before rest : List α} {x : α}
    (avoids : ScanAvoids test word p f before (x :: rest))
    (stuck : first test word p { before := before, after := x :: rest } = none) :
    ScanAvoids test word p f (x :: before) rest := by
  rw [ScanAvoids, subFrom_stuck _ stuck, List.countP_cons, List.countP_cons] at avoids
  exact Nat.add_right_cancel avoids

theorem ScanAvoids.hit {before after u : List α} {d : Cursor α} (some : 0 < p.least)
    (avoids : ScanAvoids test word p f before after)
    (found : first test word p { before := before, after := after } = .some d)
    (split : after = u ++ d.after) :
    u.countP f = 0 ∧ ScanAvoids test word p f d.before d.after := by
  have none_more : NoMore test word p (fun _ => []) f := noMore_nil
  have fewer := none_more.countP_le some d.before d.after
  have lengths := congrArg (List.countP f) split
  rw [List.countP_append] at lengths
  rw [ScanAvoids, subFrom_hit _ found (first_shorter some found), List.nil_append] at avoids
  exact ⟨by omega, by rw [ScanAvoids]; omega⟩

/-- A scan avoids the property, or there is a last match that does not. -/
theorem scanAvoids_or_last (some : 0 < p.least) (before after : List α) :
    ScanAvoids test word p f before after ∨
      ∃ front u d, after = front ++ (u ++ d.after) ∧ first test word p
          { before := front.reverse ++ before, after := u ++ d.after } = .some d ∧
        0 < u.countP f ∧ ScanAvoids test word p f d.before d.after ∧
        ∀ replacement, NoMore test word p replacement f → ∃ out,
          out.countP f ≤ front.countP f ∧ subFrom test word p replacement 0 before after =
            out ++ (replacement d ++ subFrom test word p replacement 0 d.before d.after) := by
  induction before, after using @scan_induction _ _ test word p some with
  | done => exact .inl rfl
  | keep before x rest stuck ih =>
    rcases ih with avoids | ⟨front, u, d, rfl, found, reads, last, out⟩
    · refine .inl ?_
      rw [ScanAvoids] at avoids ⊢
      rw [subFrom_stuck _ stuck, List.countP_cons, List.countP_cons, avoids]
    · refine .inr ⟨x :: front, u, d, rfl, by simpa using found, reads, last, fun _ noMore => ?_⟩
      obtain ⟨out, fewer, result⟩ := out _ noMore
      refine ⟨x :: out, ?_, ?_⟩
      · rw [List.countP_cons, List.countP_cons]
        omega
      · rw [subFrom_stuck _ stuck, result, List.cons_append]
  | hit before v e found behind ih =>
    have shorter := first_shorter some found
    rcases ih with avoids | ⟨front, u, d, split, found', reads, last, out⟩
    · cases count : v.countP f with
      | zero =>
        refine .inl ?_
        rw [ScanAvoids] at avoids ⊢
        rw [subFrom_hit _ found shorter, List.nil_append, List.countP_append, avoids, count,
          Nat.zero_add]
      | succ n =>
        refine .inr ⟨[], v, e, rfl, found, by omega, avoids, fun _ _ => ⟨[], le_rfl, ?_⟩⟩
        rw [subFrom_hit _ found shorter, List.nil_append]
    · refine .inr ⟨v ++ front, u, d, by rw [split, List.append_assoc], ?_, reads, last,
        fun replacement noMore => ?_⟩
      · simpa [behind] using found'
      · obtain ⟨out, fewer, result⟩ := out replacement noMore
        have own := noMore before v e found
        refine ⟨replacement e ++ out, ?_, ?_⟩
        · rw [List.countP_append, List.countP_append]
          omega
        · rw [subFrom_hit _ found shorter, result, List.append_assoc]

end Counting

section Residues
variable {κ α : Type*} (word : α → Bool)

/-- `text` stands between word boundaries. -/
def Stands (before text after : List α) : Prop :=
  wordAt word before ≠ wordAt word (text ++ after) ∧
    wordAt word (text.reverse ++ before) ≠ wordAt word after

/-- A text of `S` stands somewhere between word boundaries. -/
def Found (S : List α → Prop) (text : List α) : Prop :=
  ∃ front u rest, text = front ++ (u ++ rest) ∧ S u ∧ Stands word front.reverse u rest

/-- The texts of `S` end in a word character and hold no barrier. -/
structure Sought (barrier : α → Prop) (S : List α → Prop) : Prop where
  ending : ∀ u, S u → wordAt word u.reverse = true
  clear : ∀ u, S u → ∀ x ∈ u, ¬ barrier x

/-- A match from `c` to `d` that is replaced by its own beginning `kept` and by `placed`,
which no text of `S` can overlap. -/
structure Replaced (barrier : α → Prop) (S : List α → Prop) (c d : Cursor α)
    (kept placed : List α) : Prop where
  start : wordAt word c.before = true → wordAt word c.after = false
  finish : wordAt word d.before = true → wordAt word d.after = false
  keeps : ∃ dropped, c.after = kept ++ (dropped ++ d.after) ∧
    (kept ≠ [] → wordAt word (kept.reverse ++ c.before) = true →
      wordAt word (dropped ++ d.after) = false)
  opens : ∃ mark x rest, placed = mark ++ x :: rest ∧ (∀ y ∈ mark, word y = false) ∧ barrier x
  closes : ∃ rest x, placed = rest ++ [x] ∧ barrier x ∧ word x = false
  inside : ∀ u, S u → ¬ u <:+: placed

/-- The scanned text behind a position against its result: they end alike, or the result
ends in a replacement where no word goes on. -/
def Follows (before result after : List α) : Prop :=
  (wordAt word result = true → wordAt word before = true) ∧
    (wordAt word before = true → wordAt word result = false → wordAt word after = false)

end Residues

section Transport
variable {κ α : Type*} {test : κ → α → Bool} {word : α → Bool} {barrier : α → Prop}
  {S : List α → Prop} {p : Pattern κ} {kept placed : Cursor α → List α} {text : List α}

theorem Sought.ne_nil (sought : Sought word barrier S) {u : List α} (hu : S u) : u ≠ [] := by
  rintro rfl
  exact absurd (sought.ending [] hu) (by simp [wordAt])

/-- A text that ends in a word character and holds no barrier is within what is kept. -/
theorem within_kept {u later mark after tail : List α} {x : α}
    (ending : wordAt word u.reverse = true) (clear : ∀ y ∈ u, ¬ barrier y)
    (plain : ∀ y ∈ mark, word y = false) (opens : barrier x)
    (split : later ++ (mark ++ x :: tail) = u ++ after) :
    ∃ z, later = u ++ z ∧ after = z ++ (mark ++ x :: tail) := by
  rw [List.append_eq_append_iff] at split
  rcases split with ⟨z, hu, past⟩ | split
  · -- what the text has of the placed text is all of the mark, so not its last character
    have marked : ∀ y ∈ z, y ∈ mark := by
      rw [List.append_eq_append_iff] at past
      rcases past with ⟨m, hz, past⟩ | ⟨m, hm, -⟩
      · cases m with
        | nil => simp [hz]
        | cons y m =>
          obtain ⟨rfl, -⟩ := List.cons.inj past
          refine absurd opens (clear x ?_)
          simp [hu, hz]
      · simp +contextual [hm]
    obtain rfl | ⟨front, y, rfl⟩ := List.eq_nil_or_concat z
    · exact ⟨[], by simp [hu], past.symm⟩
    · have last := plain y (marked y (by simp))
      rw [hu] at ending
      simp [wordAt, last] at ending
  · exact split

/-- Every match of a scan of the text keeps a beginning of what it matched and places
text that no text of `S` can overlap. -/
def Tidy (test : κ → α → Bool) (word : α → Bool) (barrier : α → Prop) (S : List α → Prop)
    (p : Pattern κ) (kept placed : Cursor α → List α) (text : List α) : Prop :=
  ∀ c d, c.groups = [] → c.before.reverse ++ c.after = text → first test word p c = some d →
    Replaced word barrier S c d (kept d) (placed d)

/-- A text of `S` that begins the result of a scan begins what is scanned. -/
theorem starts_of_scan (tidy : Tidy test word barrier S p kept placed text)
    {before after result u rest : List α} (here : before.reverse ++ after = text)
    (scan : Scan test word p (fun d => kept d ++ placed d) before after result)
    (ending : wordAt word u.reverse = true) (clear : ∀ y ∈ u, ¬ barrier y)
    (split : result = u ++ rest) (stops : wordAt word rest = false) :
    ∃ rest', after = u ++ rest' ∧ wordAt word rest' = false := by
  induction scan generalizing u with
  | done =>
    obtain ⟨rfl, -⟩ := List.append_eq_nil_iff.mp split.symm
    simp [wordAt] at ending
  | @keep before x after result stuck next ih =>
    cases u with
    | nil => simp [wordAt] at ending
    | cons y u =>
      obtain ⟨rfl, rfl⟩ := List.cons.inj split
      have here' : (x :: before).reverse ++ after = text := by simpa using here
      by_cases last : u = []
      · subst last
        refine ⟨after, rfl, ?_⟩
        cases next with
        | done => rfl
        | keep stuck next => exact stops
        | hit found next => exact (tidy _ _ rfl here' found).start ending
      · rw [List.reverse_cons, wordAt_append_of_ne_nil (by simpa using last)] at ending
        obtain ⟨rest', rfl, stops'⟩ := ih here' ending (fun y hy => clear y (by simp [hy])) rfl
        exact ⟨rest', rfl, stops'⟩
  | @hit before after d result found next ih =>
    have replaced := tidy _ _ rfl here found
    obtain ⟨mark, x, tail, placed_eq, plain, opens⟩ := replaced.opens
    obtain ⟨dropped, after_eq, keptEnd⟩ := replaced.keeps
    rw [placed_eq, List.append_assoc, List.append_assoc, List.cons_append] at split
    obtain ⟨z, kept_eq, rfl⟩ := within_kept ending clear plain opens split
    dsimp only at after_eq keptEnd
    refine ⟨z ++ (dropped ++ d.after), by rw [after_eq, kept_eq, List.append_assoc], ?_⟩
    cases z with
    | nil =>
      rw [List.append_nil] at kept_eq
      have some : u ≠ [] := by
        rintro rfl
        simp [wordAt] at ending
      exact keptEnd (kept_eq ▸ some)
        (by rw [kept_eq, wordAt_reverse_append some]; exact ending)
    | cons y z => exact stops

theorem stands_start {u before result after rest : List α}
    (follows : Follows word before result after) (some : u ≠ []) (split : after = u ++ rest)
    (differ : wordAt word result ≠ wordAt word u) :
    wordAt word before ≠ wordAt word (u ++ rest) := by
  rw [wordAt_append_of_ne_nil some]
  obtain ⟨onward, stopped⟩ := follows
  rw [split, wordAt_append_of_ne_nil some] at stopped
  cases first : wordAt word result with
  | true =>
    rw [onward first]
    rwa [first] at differ
  | false =>
    intro same
    rw [first, same] at stopped
    rw [first] at differ
    cases inWord : wordAt word u with
    | true => exact absurd (stopped inWord rfl) (by simp [inWord])
    | false => exact differ inWord.symm

theorem Sought.stops (sought : Sought word barrier S) {before u after : List α} (hu : S u)
    (stands : Stands word before u after) : wordAt word after = false := by
  have finish := stands.2
  rw [wordAt_reverse_append (sought.ne_nil hu), sought.ending u hu] at finish
  simpa using finish.symm

/-- No text of `S` begins in what a match places, before the end of it. -/
theorem Replaced.not_in_placed {c d : Cursor α} {kept placed : List α}
    (replaced : Replaced word barrier S c d kept placed) (sought : Sought word barrier S)
    {later init result u rest : List α} {y : α} (hu : S u)
    (placed_eq : placed = later ++ (init ++ [y])) : init ++ [y] ++ result ≠ u ++ rest := by
  intro split
  obtain ⟨front, close, closing, closeBarrier, -⟩ := replaced.closes
  have last : close = y := by
    have ends := closing.symm.trans placed_eq
    rw [← List.append_assoc] at ends
    simpa using (List.append_inj' ends rfl).2
  rw [List.append_eq_append_iff] at split
  rcases split with ⟨z, u_eq, -⟩ | ⟨z, part_eq, -⟩
  · refine sought.clear u hu close ?_ closeBarrier
    simp [u_eq, last]
  · exact replaced.inside u hu ⟨later, z, by rw [placed_eq, part_eq, List.append_assoc]⟩

/-- A text of `S` that stands in what a match keeps stands in what is scanned. -/
theorem Replaced.stands_kept {c d : Cursor α} {front u z placed behindResult rest : List α}
    (replaced : Replaced word barrier S c d (front ++ (u ++ z)) placed)
    (sought : Sought word barrier S) (hu : S u)
    (follows : Follows word c.before behindResult c.after)
    (stands : Stands word (front.reverse ++ behindResult) u (z ++ rest)) :
    ∃ rest', c.after = front ++ (u ++ rest') ∧
      Stands word (front.reverse ++ c.before) u rest' := by
  have ending := sought.ending u hu
  have some := sought.ne_nil hu
  obtain ⟨dropped, after_eq, keptEnd⟩ := replaced.keeps
  refine ⟨z ++ (dropped ++ d.after), by simp [after_eq], ?_, ?_⟩
  · by_cases atStart : front = []
    · subst atStart
      refine stands_start follows some (by simp [after_eq]) ?_
      rw [← wordAt_append_of_ne_nil some (z ++ rest)]
      exact stands.1
    · have start := stands.1
      rw [wordAt_reverse_append atStart, wordAt_append_of_ne_nil some] at start
      rwa [wordAt_reverse_append atStart, wordAt_append_of_ne_nil some]
  · have stop := sought.stops hu stands
    rw [wordAt_reverse_append some, ending]
    have after_stop : wordAt word (z ++ (dropped ++ d.after)) = false := by
      cases z with
      | nil =>
        refine keptEnd (by simp [some]) ?_
        rw [List.append_nil, List.reverse_append, List.append_assoc, wordAt_reverse_append some]
        exact ending
      | cons y z => exact stop
    rw [after_stop]
    decide

/-- A text of `S` that stands in the result of a scan stands in what is scanned, where the
scan found nothing or within what a match keeps. -/
theorem stands_of_scan (sought : Sought word barrier S)
    (tidy : Tidy test word barrier S p kept placed text)
    {before behindResult after result front u rest : List α}
    (here : before.reverse ++ after = text)
    (scan : Scan test word p (fun d => kept d ++ placed d) before after result)
    (follows : Follows word before behindResult after)
    (split : result = front ++ (u ++ rest)) (hu : S u)
    (stands : Stands word (front.reverse ++ behindResult) u rest) :
    ∃ front' rest', after = front' ++ (u ++ rest') ∧
      Stands word (front'.reverse ++ before) u rest' ∧
      (first test word p { before := front'.reverse ++ before, after := u ++ rest' } = none ∨
        ∃ c d, first test word p c = some d ∧ kept d ≠ []) := by
  have ending := sought.ending u hu
  have clear := sought.clear u hu
  have some := sought.ne_nil hu
  induction scan generalizing behindResult front with
  | done => simp [some] at split
  | @keep before x after result stuck next ih =>
    cases front with
    | nil =>
      obtain ⟨rest', split', stops'⟩ := starts_of_scan tidy here (.keep stuck next) ending
        clear split (sought.stops hu stands)
      refine ⟨[], rest', split', ⟨?_, ?_⟩, .inl (split' ▸ stuck)⟩
      · refine stands_start follows some split' ?_
        rw [← wordAt_append_of_ne_nil some rest]
        exact stands.1
      · rw [wordAt_reverse_append some, ending, stops']
        decide
    | cons y front =>
      obtain ⟨rfl, later⟩ := List.cons.inj split
      have stands' : Stands word (front.reverse ++ x :: behindResult) u rest := by
        simpa using stands
      have follows' : Follows word (x :: before) (x :: behindResult) after :=
        ⟨fun h => h, fun h h' => absurd (h.symm.trans h') (by decide)⟩
      obtain ⟨front', rest', rfl, there, reason⟩ := ih (by simpa using here) follows' later stands'
      refine ⟨x :: front', rest', rfl, ?_, ?_⟩
      · simpa using there
      · simpa using reason
  | @hit before after d result found next ih =>
    have replaced := tidy _ _ rfl here found
    obtain ⟨mark, x, tail, placed_eq, plain, opens⟩ := replaced.opens
    obtain ⟨init, close, closing, -, closeWord⟩ := replaced.closes
    obtain ⟨read, after_eq', before_eq, -⟩ := reads_of_first found
    dsimp only at after_eq' before_eq
    have behindReplaced (front' : List α) (front_eq : front = (kept d ++ placed d) ++ front')
        (split : result = front' ++ (u ++ rest)) : ∃ front'' rest',
        after = front'' ++ (u ++ rest') ∧ Stands word (front''.reverse ++ before) u rest' ∧
        (first test word p { before := front''.reverse ++ before, after := u ++ rest' } = none ∨
          ∃ c d, first test word p c = .some d ∧ kept d ≠ []) := by
      have there : d.before.reverse ++ d.after = text := by
        rw [before_eq, ← here, after_eq']
        simp
      have atEnd : wordAt word ((kept d ++ placed d).reverse ++ behindResult) = false := by
        simp [closing, wordAt, closeWord]
      have follows' : Follows word d.before ((kept d ++ placed d).reverse ++ behindResult)
          d.after :=
        ⟨fun h => absurd (atEnd.symm.trans h) (by decide), fun h _ => replaced.finish h⟩
      obtain ⟨front'', rest', after', stands', reason⟩ := ih there follows' split
        (by simpa [front_eq] using stands)
      refine ⟨read ++ front'', rest', ?_, ?_, ?_⟩
      · rw [after_eq', after', List.append_assoc]
      · simpa [before_eq] using stands'
      · simpa [before_eq] using reason
    rw [List.append_assoc, List.append_eq_append_iff] at split
    rcases split with ⟨later, front_eq, split⟩ | ⟨later, kept_eq, split⟩
    · rw [List.append_eq_append_iff] at split
      rcases split with ⟨front', later_eq, split⟩ | ⟨part, placed_eq', split⟩
      · exact behindReplaced front' (by rw [front_eq, later_eq, List.append_assoc]) split
      · obtain rfl | ⟨init', y, rfl⟩ := List.eq_nil_or_concat part
        · rw [List.append_nil] at placed_eq'
          exact behindReplaced [] (by simp [front_eq, placed_eq']) split.symm
        · rw [List.concat_eq_append] at placed_eq' split
          exact (replaced.not_in_placed sought hu placed_eq' split.symm).elim
    · -- within what is kept
      rw [placed_eq, List.append_assoc, List.cons_append] at split
      obtain ⟨z, later_eq, rest_eq⟩ := within_kept ending clear plain opens split.symm
      rw [kept_eq, later_eq] at replaced
      rw [rest_eq] at stands
      obtain ⟨rest', after_eq, stands'⟩ := replaced.stands_kept sought hu follows stands
      exact ⟨front, rest', after_eq, stands', .inr ⟨_, d, found, by simp [kept_eq, later_eq, some]⟩⟩

/-- A scan whose matches are all tidy makes no text of `S`. -/
theorem not_found_sub (some : 0 < p.least) (sought : Sought word barrier S)
    (tidy : Tidy test word barrier S p kept placed text) (absent : ¬ Found word S text) :
    ¬ Found word S (sub test word p (fun d => kept d ++ placed d) text) := by
  rintro ⟨front, u, rest, split, hu, stands⟩
  obtain ⟨front', rest', rfl, stands', -⟩ := stands_of_scan sought tidy (by simp)
    (sub_scan some _ text) ⟨id, by simp [wordAt]⟩ split hu (by simpa using stands)
  exact absent ⟨front', u, rest', rfl, hu, by simpa using stands'⟩

/-- A scan that replaces whole matches, and stops wherever a text of `S` stands, leaves none. -/
theorem not_found_sub_self (some : 0 < p.least) (sought : Sought word barrier S)
    (tidy : Tidy test word barrier S p (fun _ => []) placed text)
    (matched : ∀ before u rest, S u → Stands word before u rest →
      first test word p { before := before, after := u ++ rest } ≠ none) :
    ¬ Found word S (sub test word p placed text) := by
  rintro ⟨front, u, rest, split, hu, stands⟩
  obtain ⟨front', rest', -, stands', stuck | ⟨-, -, -, kept⟩⟩ := stands_of_scan sought tidy
    (by simp) (sub_scan some _ text) ⟨id, by simp [wordAt]⟩ split hu (by simpa using stands)
  · exact matched _ u rest' hu stands' stuck
  · exact kept rfl

end Transport

end BacktrackingRegex
