import LogLens.Library.BacktrackingRegex

/-! What a pattern reads between two positions, whatever the order in which a
matcher tries its ways, and how the reported match relates to it. -/

namespace BacktrackingRegex

namespace Pattern
variable {κ : Type*}

/-- The classes of the runs of a pattern. -/
def classes : Pattern κ → List κ
  | empty | boundary | notBehind _ => []
  | run k _ _ => [k]
  | seq p q | alt p q => p.classes ++ q.classes
  | optional p | group _ p => p.classes

/-- The classes that a pattern looks back at. -/
def lookbehind : Pattern κ → List κ
  | empty | boundary | run _ _ _ => []
  | notBehind text => text
  | seq p q | alt p q => p.lookbehind ++ q.lookbehind
  | optional p | group _ p => p.lookbehind

/-- The text alone decides whether the pattern reads it. -/
def contextFree : Pattern κ → Bool
  | empty | run _ _ _ => true
  | boundary | notBehind _ => false
  | seq p q | alt p q => p.contextFree && q.contextFree
  | optional p | group _ p => p.contextFree

/-- The fewest characters that a match reads. -/
def least : Pattern κ → Nat
  | empty | boundary | notBehind _ | optional _ => 0
  | run _ n _ => n
  | seq p q => p.least + q.least
  | alt p q => min p.least q.least
  | group _ p => p.least

/-- The classes that the first character of a match can be in. -/
def firsts : Pattern κ → List κ
  | empty | boundary | notBehind _ => []
  | run k _ _ => [k]
  | seq p q => p.firsts ++ if p.least = 0 then q.firsts else []
  | alt p q => p.firsts ++ q.firsts
  | optional p | group _ p => p.firsts

/-- The classes that the last character of a match can be in. -/
def lasts : Pattern κ → List κ
  | empty | boundary | notBehind _ => []
  | run k _ _ => [k]
  | seq p q => q.lasts ++ if q.least = 0 then p.lasts else []
  | alt p q => p.lasts ++ q.lasts
  | optional p | group _ p => p.lasts

/-- Classes that every match has a character of. -/
def required : Pattern κ → List κ
  | empty | boundary | notBehind _ | optional _ | alt _ _ => []
  | run k n _ => if n = 0 then [] else [k]
  | seq p q => p.required ++ q.required
  | group _ p => p.required

/-- How many characters with a property every match has, where `has` tells of a class that
all its characters have it or none has. -/
def tally (has : κ → Bool) : Pattern κ → Option Nat
  | empty | boundary | notBehind _ => some 0
  | run k n most => if has k then (if most = some n then some n else none) else some 0
  | seq p q => do return (← p.tally has) + (← q.tally has)
  | alt p q => if p.tally has = q.tally has then p.tally has else none
  | optional p => if p.tally has = some 0 then some 0 else none
  | group _ p => p.tally has

def groupNumbers : Pattern κ → List Nat
  | empty | boundary | notBehind _ | run _ _ _ => []
  | seq p q | alt p q => p.groupNumbers ++ q.groupNumbers
  | optional p => p.groupNumbers
  | group n p => n :: p.groupNumbers

end Pattern

section Readings
variable {κ α : Type*} (test : κ → α → Bool) (word : α → Bool)

/-- A pattern can match `text` between `before`, nearest first, and `after`. -/
def Reads : Pattern κ → (before text after : List α) → Prop
  | .empty, _, text, _ => text = []
  | .run k least most, _, text, _ =>
    least ≤ text.length ∧ (∀ n ∈ most, text.length ≤ n) ∧ ∀ x ∈ text, test k x = true
  | .seq p q, before, text, after => ∃ v w, text = v ++ w ∧
    Reads p before v (w ++ after) ∧ Reads q (v.reverse ++ before) w after
  | .alt p q, before, text, after => Reads p before text after ∨ Reads q before text after
  | .optional p, before, text, after => Reads p before text after ∨ text = []
  | .boundary, before, text, after => text = [] ∧ wordAt word before ≠ wordAt word after
  | .notBehind behindText, before, text, _ =>
    text = [] ∧ behind test behindText.reverse before = false
  | .group _ p, before, text, after => Reads p before text after

end Readings

section Ways
variable {κ α : Type*} {test : κ → α → Bool} {word : α → Bool}

theorem wordAt_append_of_ne_nil {u : List α} (some : u ≠ []) (after : List α) :
    wordAt word (u ++ after) = wordAt word u := by
  cases u with
  | nil => exact absurd rfl some
  | cons x rest => rfl

theorem wordAt_reverse_append {u : List α} (some : u ≠ []) (before : List α) :
    wordAt word (u.reverse ++ before) = wordAt word u.reverse :=
  wordAt_append_of_ne_nil (by simpa using some) before

/-- What goes on with no word is like the end of the text. -/
theorem wordAt_append_of_stop {after : List α} (stop : wordAt word after = false) (u : List α) :
    wordAt word (u ++ after) = wordAt word u := by
  cases u with
  | nil => exact stop
  | cons x rest => rfl

theorem wordAt_eq_false {text : List α} (outside : ∀ x ∈ text, word x = false) :
    wordAt word text = false := by
  cases text with
  | nil => rfl
  | cons x rest => exact outside x List.mem_cons_self

theorem length_le_reach {k : κ} {most : Option Nat} {text after : List α}
    (short : ∀ n ∈ most, text.length ≤ n) (all : ∀ x ∈ text, test k x = true) :
    text.length ≤ reach test k most (text ++ after) := by
  have taken : text.length ≤ ((text ++ after).takeWhile (test k)).length := by
    rw [List.takeWhile_append_of_pos all, List.length_append]
    omega
  unfold reach
  cases most with
  | none => exact taken
  | some n => exact Nat.le_min.mpr ⟨short n rfl, taken⟩

theorem reach_run {k : κ} {most : Option Nat} {text : List α} {n : Nat}
    (within : n ≤ reach test k most text) :
    (∀ m ∈ most, n ≤ m) ∧ n ≤ text.length ∧ ∀ x ∈ text.take n, test k x = true := by
  have run : n ≤ (text.takeWhile (test k)).length ∧ ∀ m ∈ most, n ≤ m := by
    unfold reach at within
    cases most with
    | none => exact ⟨within, by simp⟩
    | some m =>
      obtain ⟨short, taken⟩ := Nat.le_min.mp within
      exact ⟨taken, by simpa using short⟩
  have front := List.takeWhile_prefix (l := text) (test k)
  refine ⟨run.2, run.1.trans front.length_le, fun x hx => ?_⟩
  have inside : text.take n <+: text.takeWhile (test k) :=
    List.prefix_of_prefix_length_le (List.take_prefix n text) front
      ((List.length_take_le n text).trans run.1)
  exact List.mem_takeWhile_imp (inside.subset hx)

theorem reads_of_mem_ways {p : Pattern κ} {c d : Cursor α} (way : d ∈ ways test word p c) :
    ∃ text, c.after = text ++ d.after ∧ d.before = text.reverse ++ c.before ∧
      Reads test word p c.before text d.after := by
  induction p generalizing c d with
  | empty =>
    rw [ways, List.mem_singleton] at way
    subst way
    exact ⟨[], rfl, rfl, rfl⟩
  | run k least most =>
    rw [ways, List.mem_map] at way
    obtain ⟨n, range, rfl⟩ := way
    rw [List.mem_reverse, List.mem_range'_1] at range
    have within : n ≤ reach test k most c.after := by omega
    obtain ⟨short, taken, all⟩ := reach_run within
    have length : (c.after.take n).length = n := List.length_take_of_le taken
    exact ⟨c.after.take n, (List.take_append_drop n c.after).symm, rfl, length.symm ▸ range.1,
      fun m hm => length.symm ▸ short m hm, all⟩
  | seq p q ihp ihq =>
    rw [ways, List.mem_flatMap] at way
    obtain ⟨e, he, hd⟩ := way
    obtain ⟨v, after, before, first⟩ := ihp he
    obtain ⟨w, after', before', second⟩ := ihq hd
    refine ⟨v ++ w, ?_, ?_, v, w, rfl, ?_, ?_⟩
    · rw [after, after', List.append_assoc]
    · rw [before', before, List.reverse_append, List.append_assoc]
    · rwa [after'] at first
    · rwa [before] at second
  | alt p q ihp ihq =>
    rw [ways, List.mem_append] at way
    rcases way with left | right
    · obtain ⟨text, after, before, reads⟩ := ihp left
      exact ⟨text, after, before, .inl reads⟩
    · obtain ⟨text, after, before, reads⟩ := ihq right
      exact ⟨text, after, before, .inr reads⟩
  | optional p ih =>
    rw [ways, List.mem_append, List.mem_singleton] at way
    rcases way with matched | rfl
    · obtain ⟨text, after, before, reads⟩ := ih matched
      exact ⟨text, after, before, .inl reads⟩
    · exact ⟨[], rfl, rfl, .inr rfl⟩
  | boundary =>
    rw [ways] at way
    split at way
    · exact absurd way List.not_mem_nil
    · rename_i differ
      rw [List.mem_singleton] at way
      subst way
      exact ⟨[], rfl, rfl, rfl, differ⟩
  | notBehind behindText =>
    rw [ways] at way
    split at way
    · exact absurd way List.not_mem_nil
    · rename_i other
      rw [List.mem_singleton] at way
      subst way
      exact ⟨[], rfl, rfl, rfl, Bool.eq_false_iff.mpr other⟩
  | group n p ih =>
    rw [ways, List.mem_map] at way
    obtain ⟨e, he, rfl⟩ := way
    obtain ⟨text, after, before, reads⟩ := ih he
    exact ⟨text, after, before, reads⟩

theorem mem_ways_of_reads {p : Pattern κ} {c : Cursor α} {text after : List α}
    (here : c.after = text ++ after) (reads : Reads test word p c.before text after) :
    ∃ d ∈ ways test word p c, d.before = text.reverse ++ c.before ∧ d.after = after := by
  induction p generalizing c text after with
  | empty =>
    subst reads
    exact ⟨c, by simp [ways], rfl, here⟩
  | run k least most =>
    obtain ⟨long, short, all⟩ := reads
    have within : text.length ≤ reach test k most c.after := here ▸ length_le_reach short all
    refine ⟨c.advance text.length, ?_, ?_, ?_⟩
    · rw [ways, List.mem_map]
      exact ⟨text.length, by rw [List.mem_reverse, List.mem_range'_1]; omega, rfl⟩
    · rw [Cursor.advance, here, List.take_left']
      rfl
    · rw [Cursor.advance, here, List.drop_left']
      rfl
  | seq p q ihp ihq =>
    obtain ⟨v, w, rfl, first, second⟩ := reads
    obtain ⟨e, he, before, rest⟩ := ihp (here.trans (List.append_assoc v w after)) first
    obtain ⟨d, hd, before', rest'⟩ := ihq rest (before ▸ second)
    refine ⟨d, List.mem_flatMap.mpr ⟨e, he, hd⟩, ?_, rest'⟩
    rw [before', before, List.reverse_append, List.append_assoc]
  | alt p q ihp ihq =>
    rcases reads with left | right
    · obtain ⟨d, hd, ends⟩ := ihp here left
      exact ⟨d, List.mem_append_left _ hd, ends⟩
    · obtain ⟨d, hd, ends⟩ := ihq here right
      exact ⟨d, List.mem_append_right _ hd, ends⟩
  | optional p ih =>
    rcases reads with matched | rfl
    · obtain ⟨d, hd, ends⟩ := ih here matched
      exact ⟨d, List.mem_append_left _ hd, ends⟩
    · exact ⟨c, List.mem_append_right _ (List.mem_singleton_self c), rfl, here⟩
  | boundary =>
    obtain ⟨rfl, differ⟩ := reads
    refine ⟨c, ?_, rfl, here⟩
    rw [ways, if_neg (here ▸ differ)]
    exact List.mem_singleton_self c
  | notBehind behindText =>
    obtain ⟨rfl, other⟩ := reads
    refine ⟨c, ?_, rfl, here⟩
    rw [ways, if_neg (Bool.eq_false_iff.mp other)]
    exact List.mem_singleton_self c
  | group n p ih =>
    obtain ⟨d, hd, ends⟩ := ih here reads
    exact ⟨_, List.mem_map_of_mem hd, ends⟩

theorem reads_of_first {p : Pattern κ} {c d : Cursor α} (found : first test word p c = some d) :
    ∃ text, c.after = text ++ d.after ∧ d.before = text.reverse ++ c.before ∧
      Reads test word p c.before text d.after :=
  reads_of_mem_ways (List.mem_of_head? found)

/-- The matcher reports a match exactly where the pattern reads something. -/
theorem first_eq_none_iff {p : Pattern κ} {c : Cursor α} :
    first test word p c = none ↔
      ∀ text after, c.after = text ++ after → ¬ Reads test word p c.before text after := by
  rw [first, List.head?_eq_none_iff, List.eq_nil_iff_forall_not_mem]
  constructor
  · intro stuck text after here reads
    obtain ⟨d, hd, -⟩ := mem_ways_of_reads here reads
    exact stuck d hd
  · intro unread d hd
    obtain ⟨text, here, -, reads⟩ := reads_of_mem_ways hd
    exact unread text _ here reads

theorem reads_one {k : κ} {before text after : List α} :
    Reads test word (.one k) before text after ↔ ∃ x, text = [x] ∧ test k x = true := by
  constructor
  · rintro ⟨long, short, all⟩
    obtain ⟨x, rfl⟩ := List.length_eq_one_iff.mp (le_antisymm (short 1 rfl) long)
    exact ⟨x, rfl, all x (List.mem_singleton_self x)⟩
  · rintro ⟨x, rfl, passes⟩
    exact ⟨le_rfl, by simp, by simpa using passes⟩

/-- Every character read is in one of the classes. -/
theorem Reads.classes {p : Pattern κ} {before text after : List α}
    (reads : Reads test word p before text after) :
    ∀ x ∈ text, ∃ k ∈ p.classes, test k x = true := by
  induction p generalizing before text after with
  | empty =>
    subst reads
    exact fun x hx => absurd hx List.not_mem_nil
  | boundary | notBehind behindText =>
    obtain ⟨rfl, -⟩ := reads
    exact fun x hx => absurd hx List.not_mem_nil
  | run k least most => exact fun x hx => ⟨k, List.mem_singleton_self k, reads.2.2 x hx⟩
  | seq p q ihp ihq =>
    obtain ⟨v, w, rfl, first, second⟩ := reads
    intro x hx
    rcases List.mem_append.mp hx with left | right
    · obtain ⟨k, hk, passes⟩ := ihp first x left
      exact ⟨k, List.mem_append_left _ hk, passes⟩
    · obtain ⟨k, hk, passes⟩ := ihq second x right
      exact ⟨k, List.mem_append_right _ hk, passes⟩
  | alt p q ihp ihq =>
    intro x hx
    rcases reads with left | right
    · obtain ⟨k, hk, passes⟩ := ihp left x hx
      exact ⟨k, List.mem_append_left _ hk, passes⟩
    · obtain ⟨k, hk, passes⟩ := ihq right x hx
      exact ⟨k, List.mem_append_right _ hk, passes⟩
  | optional p ih =>
    rcases reads with matched | rfl
    · exact ih matched
    · exact fun x hx => absurd hx List.not_mem_nil
  | group n p ih => exact ih reads

theorem Reads.least_le {p : Pattern κ} {before text after : List α}
    (reads : Reads test word p before text after) : p.least ≤ text.length := by
  induction p generalizing before text after with
  | empty | boundary | notBehind | optional => exact Nat.zero_le _
  | run k n most => exact reads.1
  | seq p q ihp ihq =>
    obtain ⟨v, w, rfl, first, second⟩ := reads
    have left := ihp first
    have right := ihq second
    rw [List.length_append, Pattern.least]
    omega
  | alt p q ihp ihq =>
    rw [Pattern.least]
    rcases reads with left | right
    · exact (min_le_left _ _).trans (ihp left)
    · exact (min_le_right _ _).trans (ihq right)
  | group n p ih => exact ih reads

theorem Reads.firsts {p : Pattern κ} {before text after : List α}
    (reads : Reads test word p before text after) :
    ∀ x ∈ text.head?, ∃ k ∈ p.firsts, test k x = true := by
  induction p generalizing before text after with
  | empty =>
    subst reads
    simp
  | boundary | notBehind behindText =>
    obtain ⟨rfl, -⟩ := reads
    simp
  | run k least most =>
    exact fun x hx => ⟨k, List.mem_singleton_self k, reads.2.2 x (List.mem_of_head? hx)⟩
  | seq p q ihp ihq =>
    obtain ⟨v, w, rfl, first, second⟩ := reads
    intro x hx
    cases v with
    | nil =>
      obtain ⟨k, hk, passes⟩ := ihq second x hx
      have empty : p.least = 0 := Nat.le_zero.mp first.least_le
      exact ⟨k, by simp [Pattern.firsts, empty, hk], passes⟩
    | cons y v =>
      obtain ⟨k, hk, passes⟩ := ihp first x hx
      exact ⟨k, List.mem_append_left _ hk, passes⟩
  | alt p q ihp ihq =>
    intro x hx
    rcases reads with left | right
    · obtain ⟨k, hk, passes⟩ := ihp left x hx
      exact ⟨k, List.mem_append_left _ hk, passes⟩
    · obtain ⟨k, hk, passes⟩ := ihq right x hx
      exact ⟨k, List.mem_append_right _ hk, passes⟩
  | optional p ih =>
    rcases reads with matched | rfl
    · exact ih matched
    · simp
  | group n p ih => exact ih reads

theorem Reads.lasts {p : Pattern κ} {before text after : List α}
    (reads : Reads test word p before text after) :
    ∀ x ∈ text.getLast?, ∃ k ∈ p.lasts, test k x = true := by
  induction p generalizing before text after with
  | empty =>
    subst reads
    simp
  | boundary | notBehind behindText =>
    obtain ⟨rfl, -⟩ := reads
    simp
  | run k least most =>
    exact fun x hx => ⟨k, List.mem_singleton_self k, reads.2.2 x (List.mem_of_getLast? hx)⟩
  | seq p q ihp ihq =>
    obtain ⟨v, w, rfl, first, second⟩ := reads
    intro x hx
    by_cases empty : w = []
    · subst empty
      rw [List.append_nil] at hx
      obtain ⟨k, hk, passes⟩ := ihp first x hx
      have empty : q.least = 0 := Nat.le_zero.mp second.least_le
      exact ⟨k, by simp [Pattern.lasts, empty, hk], passes⟩
    · rw [List.getLast?_append_of_ne_nil _ empty] at hx
      obtain ⟨k, hk, passes⟩ := ihq second x hx
      exact ⟨k, List.mem_append_left _ hk, passes⟩
  | alt p q ihp ihq =>
    intro x hx
    rcases reads with left | right
    · obtain ⟨k, hk, passes⟩ := ihp left x hx
      exact ⟨k, List.mem_append_left _ hk, passes⟩
    · obtain ⟨k, hk, passes⟩ := ihq right x hx
      exact ⟨k, List.mem_append_right _ hk, passes⟩
  | optional p ih =>
    rcases reads with matched | rfl
    · exact ih matched
    · simp
  | group n p ih => exact ih reads

theorem Reads.required {p : Pattern κ} {before text after : List α}
    (reads : Reads test word p before text after) :
    ∀ k ∈ p.required, ∃ x ∈ text, test k x = true := by
  induction p generalizing before text after with
  | empty | boundary | notBehind | optional | alt => exact fun k hk => absurd hk List.not_mem_nil
  | run k least most =>
    obtain ⟨long, -, all⟩ := reads
    intro k' hk
    rw [Pattern.required] at hk
    split at hk
    · exact absurd hk List.not_mem_nil
    · obtain rfl := List.mem_singleton.mp hk
      cases text with
      | nil => simp at long; omega
      | cons x rest => exact ⟨x, List.mem_cons_self, all x List.mem_cons_self⟩
  | seq p q ihp ihq =>
    obtain ⟨v, w, rfl, first, second⟩ := reads
    intro k hk
    rcases List.mem_append.mp hk with left | right
    · obtain ⟨x, hx, passes⟩ := ihp first k left
      exact ⟨x, List.mem_append_left _ hx, passes⟩
    · obtain ⟨x, hx, passes⟩ := ihq second k right
      exact ⟨x, List.mem_append_right _ hx, passes⟩
  | group n p ih => exact ih reads

theorem Reads.countP {p : Pattern κ} {has : κ → Bool} {f : α → Bool}
    (uniform : ∀ k ∈ p.classes, ∀ x, test k x = true → f x = has k) {n : Nat}
    (tally : p.tally has = some n) {before text after : List α}
    (reads : Reads test word p before text after) : text.countP f = n := by
  induction p generalizing before text after n with
  | empty =>
    subst reads
    simpa [Pattern.tally] using tally
  | boundary | notBehind behindText =>
    obtain ⟨rfl, -⟩ := reads
    simpa [Pattern.tally] using tally
  | run k least most =>
    obtain ⟨long, short, all⟩ := reads
    have same := uniform k (List.mem_singleton_self k)
    rw [Pattern.tally] at tally
    cases own : has k with
    | false =>
      rw [own] at tally same
      obtain rfl : 0 = n := Option.some.inj tally
      rw [List.countP_eq_zero]
      exact fun x hx => by simp [same x (all x hx)]
    | true =>
      rw [own, if_pos rfl] at tally
      rw [own] at same
      split at tally
      · rename_i exact
        obtain rfl : least = n := by simpa using tally
        have length : text.length = least := le_antisymm (short least exact) long
        rw [← length, List.countP_eq_length]
        exact fun x hx => same x (all x hx)
      · cases tally
  | seq p q ihp ihq =>
    obtain ⟨v, w, rfl, first, second⟩ := reads
    simp only [Pattern.tally, Option.bind_eq_bind, Option.bind_eq_some_iff, Option.pure_def,
      Option.some.injEq] at tally
    obtain ⟨m, left, m', right, rfl⟩ := tally
    rw [List.countP_append, ihp (fun k hk => uniform k (List.mem_append_left _ hk)) left first,
      ihq (fun k hk => uniform k (List.mem_append_right _ hk)) right second]
  | alt p q ihp ihq =>
    rw [Pattern.tally] at tally
    split at tally
    · rename_i same
      rcases reads with left | right
      · exact ihp (fun k hk => uniform k (List.mem_append_left _ hk)) tally left
      · exact ihq (fun k hk => uniform k (List.mem_append_right _ hk)) (same ▸ tally) right
    · cases tally
  | optional p ih =>
    rw [Pattern.tally] at tally
    split at tally
    · rename_i none
      obtain rfl : 0 = n := by simpa using tally
      rcases reads with matched | rfl
      · exact ih uniform none matched
      · rfl
    · cases tally
  | group m p ih => exact ih uniform tally reads

theorem Reads.of_contextFree {p : Pattern κ} (free : p.contextFree = true)
    {before before' text after after' : List α} (reads : Reads test word p before text after) :
    Reads test word p before' text after' := by
  induction p generalizing before before' text after after' with
  | empty | run k least most => exact reads
  | boundary | notBehind behindText => cases free
  | seq p q ihp ihq =>
    obtain ⟨freeLeft, freeRight⟩ := Bool.and_eq_true_iff.mp free
    obtain ⟨v, w, rfl, first, second⟩ := reads
    exact ⟨v, w, rfl, ihp freeLeft first, ihq freeRight second⟩
  | alt p q ihp ihq =>
    obtain ⟨freeLeft, freeRight⟩ := Bool.and_eq_true_iff.mp free
    exact reads.imp (ihp freeLeft) (ihq freeRight)
  | optional p ih => exact reads.imp_left (ih free)
  | group n p ih => exact ih free reads

/-- Boundaries are all that a pattern without lookbehind sees of the text around it. -/
theorem Reads.of_wordAt {p : Pattern κ} (blind : p.lookbehind = [])
    {before before' text after after' : List α} (back : wordAt word before = wordAt word before')
    (ahead : wordAt word after = wordAt word after') (reads : Reads test word p before text after) :
    Reads test word p before' text after' := by
  have onward {u a a' : List α} (same : wordAt word a = wordAt word a') :
      wordAt word (u ++ a) = wordAt word (u ++ a') := by
    cases u with
    | nil => exact same
    | cons x u => rfl
  induction p generalizing before before' text after after' with
  | empty | run k least most => exact reads
  | boundary =>
    obtain ⟨rfl, differ⟩ := reads
    exact ⟨rfl, by rwa [← back, ← ahead]⟩
  | notBehind behindText =>
    obtain rfl : behindText = [] := blind
    obtain ⟨rfl, unseen⟩ := reads
    exact absurd unseen (by simp [behind])
  | seq p q ihp ihq =>
    obtain ⟨blindLeft, blindRight⟩ := List.append_eq_nil_iff.mp blind
    obtain ⟨v, w, rfl, first, second⟩ := reads
    exact ⟨v, w, rfl, ihp blindLeft back (onward ahead) first,
      ihq blindRight (onward back) ahead second⟩
  | alt p q ihp ihq =>
    obtain ⟨blindLeft, blindRight⟩ := List.append_eq_nil_iff.mp blind
    exact reads.imp (ihp blindLeft back ahead) (ihq blindRight back ahead)
  | optional p ih => exact reads.imp_left (ih blind back ahead)
  | group n p ih => exact ih blind back ahead reads

theorem reads_chain_append {ps qs : List (Pattern κ)} {before text after : List α} :
    Reads test word (.chain (ps ++ qs)) before text after ↔ ∃ v w, text = v ++ w ∧
      Reads test word (.chain ps) before v (w ++ after) ∧
      Reads test word (.chain qs) (v.reverse ++ before) w after := by
  induction ps generalizing before text with
  | nil =>
    constructor
    · exact fun reads => ⟨[], text, rfl, rfl, reads⟩
    · rintro ⟨v, w, rfl, rfl, reads⟩
      exact reads
  | cons p ps ih =>
    constructor
    · rintro ⟨v, w, rfl, first, others⟩
      obtain ⟨v', w', rfl, second, third⟩ := ih.mp others
      refine ⟨v ++ v', w', (List.append_assoc ..).symm, ⟨v, v', rfl, ?_, second⟩, ?_⟩
      · rwa [← List.append_assoc]
      · rwa [List.reverse_append, List.append_assoc]
    · rintro ⟨_, w', rfl, ⟨v, v', rfl, first, second⟩, third⟩
      refine ⟨v, v' ++ w', List.append_assoc .., ?_, ih.mpr ⟨v', w', rfl, second, ?_⟩⟩
      · rwa [List.append_assoc]
      · rwa [List.reverse_append, List.append_assoc] at third

/-- A body between two boundaries. -/
theorem reads_delimited {ps : List (Pattern κ)} {before text after : List α} :
    Reads test word (.chain (.boundary :: (ps ++ [.boundary]))) before text after ↔
      wordAt word before ≠ wordAt word (text ++ after) ∧
      Reads test word (.chain ps) before text after ∧
      wordAt word (text.reverse ++ before) ≠ wordAt word after := by
  constructor
  · rintro ⟨_, body, rfl, ⟨rfl, start⟩, rest⟩
    obtain ⟨v, w, rfl, inner, _, _, ends, ⟨rfl, finish⟩, rfl⟩ := reads_chain_append.mp rest
    obtain rfl : w = [] := ends
    simp only [List.append_nil, List.nil_append, List.reverse_nil] at *
    exact ⟨start, inner, finish⟩
  · rintro ⟨start, inner, finish⟩
    refine ⟨[], text, rfl, ⟨rfl, start⟩, reads_chain_append.mpr ⟨text, [], ?_, inner, ?_⟩⟩
    · exact (List.append_nil text).symm
    · exact ⟨[], [], rfl, ⟨rfl, finish⟩, rfl⟩

/-- No match begins at a character that none of the first classes has. -/
theorem first_stuck {p : Pattern κ} (some : 0 < p.least) {x : α}
    (stuck : ∀ k ∈ p.firsts, test k x = false) (before rest : List α) :
    first test word p { before := before, after := x :: rest } = none := by
  refine first_eq_none_iff.mpr fun u after split reads => ?_
  cases u with
  | nil =>
    have long := reads.least_le
    rw [List.length_nil] at long
    omega
  | cons y u =>
    obtain ⟨rfl, -⟩ := List.cons.inj split
    obtain ⟨k, hk, passes⟩ := reads.firsts x rfl
    rw [stuck k hk] at passes
    cases passes

theorem first_seq {p q : Pattern κ} {c d : Cursor α}
    (found : first test word (.seq p q) c = some d) :
    ∃ e ∈ ways test word p c, first test word q e = some d := by
  rw [first, ways, List.head?_flatMap, List.findSome?_eq_some_iff] at found
  obtain ⟨_, e, _, here, first, -⟩ := found
  exact ⟨e, here ▸ List.mem_append_right _ List.mem_cons_self, first⟩

theorem first_seq_of_first {p q : Pattern κ} {c d e : Cursor α}
    (here : first test word p c = some e) (next : first test word q e = some d) :
    first test word (.seq p q) c = some d := by
  obtain ⟨later, listed⟩ := List.head?_eq_some_iff.mp here
  rw [first] at next
  rw [first, ways, listed, List.flatMap_cons, List.head?_append, next, Option.some_or]

theorem first_boundary {c : Cursor α} (differ : wordAt word c.before ≠ wordAt word c.after) :
    first test word .boundary c = some c := by
  rw [first, ways, if_neg differ, List.head?_cons]

/-- A greedy run takes all it can. -/
theorem first_run_eq {k : κ} {least : Nat} {c : Cursor α} {text after : List α}
    (here : c.after = text ++ after) (long : least ≤ text.length)
    (all : ∀ x ∈ text, test k x = true) (stops : ∀ x ∈ after.head?, test k x = false) :
    first test word (.run k least none) c =
      some { c with before := text.reverse ++ c.before, after := after } := by
  have taken : c.after.takeWhile (test k) = text := by
    rw [here, List.takeWhile_append_of_pos all]
    cases after with
    | nil => simp
    | cons x after => simp [stops x rfl]
  have whole : reach test k none c.after = text.length := congrArg List.length taken
  rw [first, ways, List.head?_map, List.head?_reverse, whole, List.getLast?_range',
    if_neg (by omega), Option.map_some, Cursor.advance, here]
  have last : least + (text.length + 1 - least) - 1 = text.length := by omega
  simp [last]

/-- A greedy run is at least as long as any with which the rest of the pattern matches. -/
theorem first_run_longest {k : κ} {least : Nat} {q : Pattern κ} {c d e : Cursor α}
    (found : first test word (.seq (.run k least none) q) c = some d) {text after : List α}
    (here : c.after = text ++ after) (long : least ≤ text.length)
    (all : ∀ x ∈ text, test k x = true)
    (next : first test word q { c with before := text.reverse ++ c.before, after := after } =
      some e) :
    ∃ text' after', c.after = text' ++ after' ∧ text.length ≤ text'.length ∧
      first test word q { c with before := text'.reverse ++ c.before, after := after' } =
        some d := by
  have own : c.advance text.length =
      { c with before := text.reverse ++ c.before, after := after } := by
    rw [Cursor.advance, here, List.take_left, List.drop_left]
  rw [first, ways, List.head?_flatMap, List.findSome?_eq_some_iff] at found
  obtain ⟨longer, _, _, listed, reported, stuck⟩ := found
  rw [ways, List.map_eq_append_iff] at listed
  obtain ⟨ns, ms, split, rfl, tail⟩ := listed
  obtain ⟨n, ms, rfl, rfl, -⟩ := List.map_eq_cons_iff.mp tail
  have listed : text.length ∈ ns ++ n :: ms := by
    have within : text.length ≤ reach test k none c.after :=
      here ▸ length_le_reach (by simp) all
    rw [← split, List.mem_reverse, List.mem_range'_1]
    omega
  have size : text.length ≤ n := by
    have sorted : (ns ++ n :: ms).Pairwise (· > ·) := by
      rw [← split, List.pairwise_reverse]
      exact List.pairwise_lt_range'
    rcases List.mem_append.mp listed with tried | last
    · have failed := stuck _ (List.mem_map_of_mem tried)
      rw [own] at failed
      rw [first] at next
      rw [failed] at next
      cases next
    · rcases List.mem_cons.mp last with rfl | later
      · exact le_rfl
      · exact (List.rel_of_pairwise_cons (List.pairwise_append.mp sorted).2.1 later).le
  have taken : (c.after.take n).length = n := by
    have range : n ∈ ns ++ n :: ms := by simp
    rw [← split, List.mem_reverse, List.mem_range'_1] at range
    have within : n ≤ reach test k none c.after := by omega
    exact List.length_take_of_le (reach_run within).2.1
  exact ⟨c.after.take n, c.after.drop n, (List.take_append_drop n c.after).symm,
    size.trans_eq taken.symm, reported⟩

/-- A greedy run without a bound stops before a character outside its class. -/
theorem first_run {k : κ} {least : Nat} {c d : Cursor α}
    (found : first test word (.run k least none) c = some d) :
    d = c.advance (c.after.takeWhile (test k)).length := by
  rw [first, ways, List.head?_map, List.head?_reverse, Option.map_eq_some_iff] at found
  obtain ⟨n, last, rfl⟩ := found
  have whole : reach test k none c.after = (c.after.takeWhile (test k)).length := rfl
  rw [List.getLast?_range', whole] at last
  split at last
  · cases last
  · rw [Option.some.injEq] at last
    congr 1
    omega

theorem first_run_stops {k : κ} {least : Nat} {c d : Cursor α}
    (found : first test word (.run k least none) c = some d) :
    ∀ x ∈ d.after.head?, test k x = false := by
  have rest : d.after = c.after.dropWhile (test k) := by
    have split := List.takeWhile_append_dropWhile (p := test k) (l := c.after)
    have dropped : (c.after.takeWhile (test k) ++ c.after.dropWhile (test k)).drop
        (c.after.takeWhile (test k)).length = c.after.dropWhile (test k) := List.drop_left
    rw [split] at dropped
    rw [first_run found]
    exact dropped
  intro x hx
  have stops := List.head?_dropWhile_not (test k) c.after
  rw [← rest, hx] at stops
  simpa using stops

/-- A pattern leaves the groups that it does not have. -/
theorem groupText_of_ways {p : Pattern κ} {n : Nat} (other : n ∉ p.groupNumbers)
    {c d : Cursor α} (way : d ∈ ways test word p c) : d.groupText n = c.groupText n := by
  induction p generalizing c d with
  | empty =>
    rw [ways, List.mem_singleton] at way
    rw [way]
  | run k least most =>
    rw [ways, List.mem_map] at way
    obtain ⟨m, -, rfl⟩ := way
    rfl
  | seq p q ihp ihq =>
    rw [Pattern.groupNumbers, List.mem_append, not_or] at other
    rw [ways, List.mem_flatMap] at way
    obtain ⟨e, he, hd⟩ := way
    exact (ihq other.2 hd).trans (ihp other.1 he)
  | alt p q ihp ihq =>
    rw [Pattern.groupNumbers, List.mem_append, not_or] at other
    rw [ways, List.mem_append] at way
    exact way.elim (ihp other.1) (ihq other.2)
  | optional p ih =>
    rw [ways, List.mem_append, List.mem_singleton] at way
    rcases way with matched | rfl
    · exact ih other matched
    · rfl
  | boundary | notBehind text =>
    rw [ways] at way
    split at way
    · exact absurd way List.not_mem_nil
    · rw [List.mem_singleton.mp way]
  | group m p ih =>
    rw [Pattern.groupNumbers, List.mem_cons, not_or] at other
    rw [ways, List.mem_map] at way
    obtain ⟨e, he, rfl⟩ := way
    rw [← ih other.2 he]
    unfold Cursor.groupText
    rw [List.find?_cons_of_neg (by simpa using Ne.symm other.1)]

theorem readUpTo_eq {c d : Cursor α} {text : List α} (split : c.after = text ++ d.after) :
    c.readUpTo d = text := by
  rw [Cursor.readUpTo, split, List.length_append, Nat.add_sub_cancel, List.take_left']
  rfl

/-- A group followed by a pattern without it has the text that it read. -/
theorem reads_group_seq {p q : Pattern κ} {n : Nat} (other : n ∉ q.groupNumbers)
    {c d : Cursor α} (way : d ∈ ways test word (.seq (.group n p) q) c) :
    ∃ text, c.after = d.groupText n ++ (text ++ d.after) ∧
      d.before = text.reverse ++ (d.groupText n).reverse ++ c.before ∧
      Reads test word p c.before (d.groupText n) (text ++ d.after) ∧
      Reads test word q ((d.groupText n).reverse ++ c.before) text d.after := by
  rw [ways, List.mem_flatMap] at way
  obtain ⟨e, he, hd⟩ := way
  rw [ways, List.mem_map] at he
  obtain ⟨e, he, rfl⟩ := he
  obtain ⟨label, after, before, first⟩ := reads_of_mem_ways he
  obtain ⟨text, after', before', second⟩ := reads_of_mem_ways hd
  dsimp only at after' before' second
  have own : d.groupText n = label := by
    rw [groupText_of_ways other hd]
    simp [Cursor.groupText, readUpTo_eq after]
  rw [own]
  refine ⟨text, by rw [after, after'], by rw [before', before, List.append_assoc], ?_, ?_⟩
  · rwa [after'] at first
  · rwa [before] at second

theorem first_chain_singleton (p : Pattern κ) (c : Cursor α) :
    first test word (.chain [p]) c = first test word p c := by
  have same : ways test word (.chain [p]) c = ways test word p c :=
    List.flatMap_pure_eq_map id _ |>.trans (List.map_id _)
  rw [first, first, same]

theorem first_group (n : Nat) (p : Pattern κ) (c : Cursor α) :
    first test word (.group n p) c = (first test word p c).map fun d =>
      { d with groups := (n, c.readUpTo d) :: d.groups } := by
  rw [first, ways, List.head?_map, first]

end Ways

end BacktrackingRegex
