import Mathlib.Data.List.Basic
import Mathlib.Data.List.TakeWhile

/-! Backtracking regular expressions with greedy runs, word boundaries, fixed
lookbehind and groups. `ways` lists every way to match in the order a
backtracking matcher tries them, so its head is the match that matcher reports.
Character classes are names, given their meaning by `test`; two meanings that
agree on the characters of a text match it alike. -/

namespace BacktrackingRegex

inductive Pattern (κ : Type*)
  | empty
  | run (k : κ) (least : Nat) (most : Option Nat)
  | seq (p q : Pattern κ)
  | alt (p q : Pattern κ)
  | optional (p : Pattern κ)
  | boundary
  | notBehind (text : List κ)
  | group (n : Nat) (p : Pattern κ)

namespace Pattern
variable {κ : Type*}

def chain (ps : List (Pattern κ)) : Pattern κ := ps.foldr seq empty

def choice (p : Pattern κ) (ps : List (Pattern κ)) : Pattern κ := ps.foldl alt p

def one (k : κ) : Pattern κ := run k 1 (some 1)

def exactly (n : Nat) (k : κ) : Pattern κ := run k n (some n)

def atLeast (n : Nat) (k : κ) : Pattern κ := run k n none

end Pattern

/-- A position in a text: what stands before it, nearest first, what stands
after it, and the groups matched so far, latest first. -/
structure Cursor (α : Type*) where
  before : List α
  after : List α
  groups : List (Nat × List α) := []

namespace Cursor
variable {α : Type*}

def advance (c : Cursor α) (n : Nat) : Cursor α :=
  { c with before := (c.after.take n).reverse ++ c.before, after := c.after.drop n }

/-- The text read between `c` and the later cursor `d`. -/
def readUpTo (c d : Cursor α) : List α := c.after.take (c.after.length - d.after.length)

def groupText (c : Cursor α) (n : Nat) : List α :=
  ((c.groups.find? fun g => g.1 = n).map Prod.snd).getD []

structure Holds (P : α → Prop) (c : Cursor α) : Prop where
  before : ∀ x ∈ c.before, P x
  after : ∀ x ∈ c.after, P x
  groups : ∀ g ∈ c.groups, ∀ x ∈ g.2, P x

theorem Holds.advance {P : α → Prop} {c : Cursor α} (h : c.Holds P) (n : Nat) :
    (c.advance n).Holds P where
  before x hx := by
    simp only [Cursor.advance, List.mem_append, List.mem_reverse] at hx
    rcases hx with taken | old
    · exact h.after x (List.mem_of_mem_take taken)
    · exact h.before x old
  after x hx := h.after x (List.mem_of_mem_drop hx)
  groups := h.groups

theorem Holds.groupText {P : α → Prop} {c : Cursor α} (h : c.Holds P) (n : Nat) :
    ∀ x ∈ c.groupText n, P x := by
  intro x hx
  unfold Cursor.groupText at hx
  cases found : c.groups.find? fun g => g.1 = n with
  | none => simp [found] at hx
  | some g =>
    simp only [found, Option.map_some, Option.getD_some] at hx
    exact h.groups g (List.mem_of_find?_eq_some found) x hx

end Cursor

section Matching
variable {κ α : Type*} (test : κ → α → Bool) (word : α → Bool)

def behind : List κ → List α → Bool
  | [], _ => true
  | _ :: _, [] => false
  | k :: ks, x :: xs => test k x && behind ks xs

def wordAt : List α → Bool
  | [] => false
  | x :: _ => word x

/-- How many characters a greedy run takes at most. -/
def reach (k : κ) (most : Option Nat) (text : List α) : Nat :=
  let length := (text.takeWhile (test k)).length
  match most with
  | none => length
  | some n => min n length

def ways : Pattern κ → Cursor α → List (Cursor α)
  | .empty, c => [c]
  | .run k least most, c =>
    ((List.range' least (reach test k most c.after + 1 - least)).reverse).map c.advance
  | .seq p q, c => (ways p c).flatMap (ways q)
  | .alt p q, c => ways p c ++ ways q c
  | .optional p, c => ways p c ++ [c]
  | .boundary, c => if wordAt word c.before = wordAt word c.after then [] else [c]
  | .notBehind text, c => if behind test text.reverse c.before then [] else [c]
  | .group n p, c => (ways p c).map fun d =>
    { d with groups := (n, c.readUpTo d) :: d.groups }

/-- The match a backtracking matcher reports at this position. -/
def first (p : Pattern κ) (c : Cursor α) : Option (Cursor α) := (ways test word p c).head?

/-- Leftmost substitution, for patterns that match no empty text; `skip`
counts the characters of the last match still to be passed over. -/
def subFrom (p : Pattern κ) (replacement : Cursor α → List α) :
    (skip : Nat) → (before after : List α) → List α
  | _, _, [] => []
  | skip + 1, before, x :: rest => subFrom p replacement skip (x :: before) rest
  | 0, before, x :: rest =>
    match first test word p { before := before, after := x :: rest } with
    | none => x :: subFrom p replacement 0 (x :: before) rest
    | some d =>
      match (x :: rest).length - d.after.length with
      | 0 => x :: subFrom p replacement 0 (x :: before) rest
      | taken + 1 => replacement d ++ subFrom p replacement taken (x :: before) rest

def sub (p : Pattern κ) (replacement : Cursor α → List α) (text : List α) : List α :=
  subFrom test word p replacement 0 [] text

end Matching

section Preservation
variable {κ α : Type*} {test : κ → α → Bool} {word : α → Bool} {P : α → Prop}

theorem ways_holds (p : Pattern κ) {c d : Cursor α} (h : c.Holds P)
    (way : d ∈ ways test word p c) : d.Holds P := by
  induction p generalizing c d with
  | empty =>
    rw [ways, List.mem_singleton] at way
    exact way ▸ h
  | run k least most =>
    rw [ways, List.mem_map] at way
    obtain ⟨n, -, rfl⟩ := way
    exact h.advance n
  | seq p q ihp ihq =>
    rw [ways, List.mem_flatMap] at way
    obtain ⟨e, he, hd⟩ := way
    exact ihq (ihp h he) hd
  | alt p q ihp ihq =>
    rw [ways, List.mem_append] at way
    exact way.elim (ihp h) (ihq h)
  | optional p ih =>
    rw [ways, List.mem_append, List.mem_singleton] at way
    rcases way with matched | rfl
    · exact ih h matched
    · exact h
  | boundary =>
    rw [ways] at way
    split at way
    · exact absurd way List.not_mem_nil
    · exact List.mem_singleton.mp way ▸ h
  | notBehind text =>
    rw [ways] at way
    split at way
    · exact absurd way List.not_mem_nil
    · exact List.mem_singleton.mp way ▸ h
  | group n p ih =>
    rw [ways, List.mem_map] at way
    obtain ⟨e, he, rfl⟩ := way
    have held := ih h he
    refine ⟨held.before, held.after, ?_⟩
    intro g hg x hx
    rcases List.mem_cons.mp hg with rfl | old
    · exact h.after x (List.mem_of_mem_take hx)
    · exact held.groups g old x hx

/-- A property of every character of the text and of every replacement is one
of the result. -/
theorem subFrom_holds (p : Pattern κ) {replacement : Cursor α → List α}
    (kept : ∀ d : Cursor α, d.Holds P → ∀ x ∈ replacement d, P x)
    (after before : List α) (skip : Nat) (hb : ∀ x ∈ before, P x) (ha : ∀ x ∈ after, P x) :
    ∀ x ∈ subFrom test word p replacement skip before after, P x := by
  induction after generalizing before skip with
  | nil => cases skip <;> simp [subFrom]
  | cons y rest ih =>
    have hy : P y := ha y List.mem_cons_self
    have hb' : ∀ x ∈ y :: before, P x := List.forall_mem_cons.mpr ⟨hy, hb⟩
    have tail := fun skip => ih (y :: before) skip hb' fun x hx => ha x (List.mem_cons_of_mem y hx)
    cases skip with
    | succ skip => exact tail skip
    | zero =>
      have here : Cursor.Holds P { before := before, after := y :: rest } :=
        ⟨hb, ha, by simp⟩
      rw [subFrom]
      split
      · exact List.forall_mem_cons.mpr ⟨hy, tail 0⟩
      · rename_i d found
        have way : d ∈ ways test word p { before := before, after := y :: rest } :=
          List.mem_of_head? found
        split
        · exact List.forall_mem_cons.mpr ⟨hy, tail 0⟩
        · rename_i taken _
          exact List.forall_mem_append.mpr ⟨kept d (ways_holds p here way), tail taken⟩

theorem sub_holds (p : Pattern κ) {replacement : Cursor α → List α}
    (kept : ∀ d : Cursor α, d.Holds P → ∀ x ∈ replacement d, P x)
    {text : List α} (h : ∀ x ∈ text, P x) : ∀ x ∈ sub test word p replacement text, P x :=
  subFrom_holds p kept text [] 0 (by simp) h

end Preservation

section Agreement
variable {κ α : Type*} {test test' : κ → α → Bool} {word word' : α → Bool} {P : α → Prop}

theorem behind_congr (agree : ∀ k x, P x → test k x = test' k x) (ks : List κ)
    (text : List α) (h : ∀ x ∈ text, P x) : behind test ks text = behind test' ks text := by
  induction ks generalizing text with
  | nil => rfl
  | cons k ks ih =>
    cases text with
    | nil => rfl
    | cons x rest =>
      rw [List.forall_mem_cons] at h
      rw [behind, behind, agree k x h.1, ih rest h.2]

theorem reach_congr (agree : ∀ k x, P x → test k x = test' k x) (k : κ) (most : Option Nat)
    (text : List α) (h : ∀ x ∈ text, P x) : reach test k most text = reach test' k most text := by
  have same : text.takeWhile (test k) = text.takeWhile (test' k) := by
    induction text with
    | nil => rfl
    | cons x rest ih =>
      rw [List.forall_mem_cons] at h
      rw [List.takeWhile_cons, List.takeWhile_cons, agree k x h.1, ih h.2]
  unfold reach
  rw [same]

theorem wordAt_congr (agree : ∀ x, P x → word x = word' x) (text : List α)
    (h : ∀ x ∈ text, P x) : wordAt word text = wordAt word' text := by
  cases text with
  | nil => rfl
  | cons x rest => exact agree x (h x List.mem_cons_self)

theorem ways_congr (agree : ∀ k x, P x → test k x = test' k x)
    (agreeWord : ∀ x, P x → word x = word' x) (p : Pattern κ) (c : Cursor α) (h : c.Holds P) :
    ways test word p c = ways test' word' p c := by
  induction p generalizing c with
  | empty => rfl
  | run k least most => rw [ways, ways, reach_congr agree k most _ h.after]
  | seq p q ihp ihq =>
    rw [ways, ways, ← ihp c h]
    exact List.flatMap_congr fun d hd => ihq d (ways_holds p h hd)
  | alt p q ihp ihq => rw [ways, ways, ihp c h, ihq c h]
  | optional p ih => rw [ways, ways, ih c h]
  | boundary =>
    rw [ways, ways, wordAt_congr agreeWord _ h.before, wordAt_congr agreeWord _ h.after]
  | notBehind text => rw [ways, ways, behind_congr agree _ _ h.before]
  | group n p ih => rw [ways, ways, ih c h]

theorem subFrom_congr (agree : ∀ k x, P x → test k x = test' k x)
    (agreeWord : ∀ x, P x → word x = word' x) (p : Pattern κ) (replacement : Cursor α → List α)
    (after before : List α) (skip : Nat) (hb : ∀ x ∈ before, P x) (ha : ∀ x ∈ after, P x) :
    subFrom test word p replacement skip before after =
      subFrom test' word' p replacement skip before after := by
  induction after generalizing before skip with
  | nil => cases skip <;> rfl
  | cons y rest ih =>
    have here : Cursor.Holds P { before := before, after := y :: rest } := ⟨hb, ha, by simp⟩
    rw [List.forall_mem_cons] at ha
    have tail := fun skip =>
      ih (y :: before) skip (List.forall_mem_cons.mpr ⟨ha.1, hb⟩) ha.2
    cases skip with
    | succ skip => exact tail skip
    | zero =>
      simp only [subFrom, first, ways_congr agree agreeWord p _ here, tail]

/-- Meanings of the classes that agree on the characters of a text give the
same substitution. -/
theorem sub_congr (agree : ∀ k x, P x → test k x = test' k x)
    (agreeWord : ∀ x, P x → word x = word' x) (p : Pattern κ) (replacement : Cursor α → List α)
    {text : List α} (h : ∀ x ∈ text, P x) :
    sub test word p replacement text = sub test' word' p replacement text :=
  subFrom_congr agree agreeWord p replacement text [] 0 (by simp) h

end Agreement

end BacktrackingRegex
