import Mathlib.Data.Char
import Mathlib.Data.List.Lex
import Mathlib.Data.List.Sort
import LogLens.CreateJobRace
import LogLens.Prompts
import LogLens.Library.PrefixCode

/-! The `request_hash` of a bulk request: `json.dumps(..., sort_keys=True)` of its logs. -/

namespace LogLens
open PrefixCode

section Strings

def hexDigit (n : Nat) : Char := ("0123456789abcdef".toList).getD n '0'

/-- `"\\u{0:04x}".format(n)` -/
def unicodeEscape (n : Nat) : Str :=
  ['\\', 'u', hexDigit (n / 4096), hexDigit (n / 256 % 16), hexDigit (n / 16 % 16),
    hexDigit (n % 16)]

/-- `ESCAPE_DCT` of the encoder. -/
def shortEscapes : List (Nat × Char) :=
  [('\\'.toNat, '\\'), ('"'.toNat, '"'), (8, 'b'), (12, 'f'), ('\n'.toNat, 'n'),
    ('\r'.toNat, 'r'), ('\t'.toNat, 't')]

/-- A code point by its number, or by a surrogate pair. -/
def CodePoint.units (c : CodePoint) : List Nat :=
  if c.toNat < 0x10000 then [c.toNat]
  else [0xd800 + (c.toNat - 0x10000) / 0x400, 0xdc00 + (c.toNat - 0x10000) % 0x400]

/-- A unit of a string, as `ensure_ascii` has it written. -/
def escapeUnit (n : Nat) : Str :=
  match shortEscapes.lookup n with
  | some e => ['\\', e]
  | none => if ' '.toNat ≤ n ∧ n ≤ '~'.toNat then [Char.ofNat n] else unicodeEscape n

def escapeChar (c : CodePoint) : Str := c.units.flatMap escapeUnit

def quote (s : Text) : Str := '"' :: delimited escapeChar [] ['"'] [] s

/-- Python compares strings by their code points. -/
instance : LinearOrder CodePoint :=
  LinearOrder.lift' CodePoint.toNat fun _ _ same => CodePoint.toNat_inj same

end Strings

namespace Json
mutual

/-- The text of a value whose members are in the order they are written in. -/
def write : Json Text → Str
  | .null => "null".toList
  | .bool b => (if b then "true" else "false").toList
  | .num literal => literal
  | .str s => quote s
  | .arr items => '[' :: writeItems [] items
  | .obj members => '{' :: writeMembers [] members

def writeItems : (lead : Str) → List (Json Text) → Str
  | _, [] => [']']
  | lead, item :: items => lead ++ (item.write ++ writeItems [',', ' '] items)

def writeMembers : (lead : Str) → List (Text × Json Text) → Str
  | _, [] => ['}']
  | lead, (key, value) :: members =>
    lead ++ (quote key ++ ([':', ' '] ++ value.write) ++ writeMembers [',', ' '] members)

end

/-- The member is written before members with later keys. -/
def insertMember (key : Text) (value : Json Text) :
    List (Text × Json Text) → List (Text × Json Text)
  | [] => [(key, value)]
  | (key', value') :: members =>
    if key ≤ key' then (key, value) :: (key', value') :: members
    else (key', value') :: insertMember key value members

mutual

/-- `sort_keys=True`, at every level. -/
def sortKeys : Json Text → Json Text
  | .arr items => .arr (sortItems items)
  | .obj members => .obj (sortMembers members)
  | .null => .null
  | .bool b => .bool b
  | .num literal => .num literal
  | .str s => .str s

def sortItems : List (Json Text) → List (Json Text)
  | [] => []
  | item :: items => item.sortKeys :: sortItems items

def sortMembers : List (Text × Json Text) → List (Text × Json Text)
  | [] => []
  | (key, value) :: members => insertMember key value.sortKeys (sortMembers members)

end

/-- `json.dumps(value, sort_keys=True)` -/
def dumps (value : Json Text) : Str := value.sortKeys.write

end Json

example : (Json.obj [(textOf ['b'], .arr [.num ['1'], .null]),
    (textOf ['a'], .str (⟨0xd800, by decide⟩ :: textOf ['é', '"']))]).dumps =
    "\x7b\"a\": \"\\ud800\\u00e9\\\"\", \"b\": [1, null]\x7d".toList := by decide +kernel

section Reading

theorem hexDigit_injective {m n : Nat} (hm : m < 16) (hn : n < 16)
    (same : hexDigit m = hexDigit n) : m = n := by
  have table : ∀ m < 16, ∀ n < 16, hexDigit m = hexDigit n → m = n := by decide
  exact table m hm n hn same

theorem unicodeEscape_injective {m n : Nat} (hm : m < 0x10000) (hn : n < 0x10000)
    (same : unicodeEscape m = unicodeEscape n) : m = n := by
  simp only [unicodeEscape, List.cons.injEq, and_true, true_and] at same
  obtain ⟨first, second, third, fourth⟩ := same
  have first := hexDigit_injective (by omega) (by omega) first
  have second := hexDigit_injective (by omega) (by omega) second
  have third := hexDigit_injective (by omega) (by omega) third
  have fourth := hexDigit_injective (by omega) (by omega) fourth
  omega

theorem unicodeEscape_append {m n : Nat} (hm : m < 0x10000) (hn : n < 0x10000) {x y : Str}
    (same : unicodeEscape m ++ x = unicodeEscape n ++ y) : m = n ∧ x = y := by
  obtain ⟨unit, ends⟩ := List.append_inj same (by simp [unicodeEscape])
  exact ⟨unicodeEscape_injective hm hn unit, ends⟩

theorem escapeUnit_cases (n : Nat) :
    (∃ e, (n, e) ∈ shortEscapes ∧ escapeUnit n = ['\\', e]) ∨
      (∃ c : Char, c.toNat = n ∧ c ≠ '\\' ∧ c ≠ '"' ∧ escapeUnit n = [c]) ∨
      escapeUnit n = unicodeEscape n := by
  unfold escapeUnit
  split
  · rename_i e found
    obtain ⟨front, rest, listed, -⟩ := List.lookup_eq_some_iff.mp found
    exact .inl ⟨e, by rw [listed]; simp, rfl⟩
  · rename_i none
    refine .inr ?_
    split
    · rename_i printable
      have small : n ≤ 126 := printable.2
      have own : (Char.ofNat n).toNat = n := by
        rw [Char.ofNat, dif_pos (.inl (by omega))]
        rfl
      refine .inl ⟨Char.ofNat n, own, ?_, ?_, rfl⟩ <;>
        (intro same; rw [← own, same] at none; cases none)
    · exact .inr rfl

theorem escapeUnit_reads {n : Nat} (hn : n < 0x10000) :
    ReadsBack (fun m => m < 0x10000) escapeUnit (fun _ => True) n := by
  intro m hm x y _ _ same
  have short : ∀ p ∈ shortEscapes,
      p.2 ≠ 'u' ∧ ∀ q ∈ shortEscapes, p.2 = q.2 → p.1 = q.1 := by decide
  rcases escapeUnit_cases n with ⟨e, he, hc⟩ | ⟨c, rfl, plain, -, hc⟩ | hc
  · rcases escapeUnit_cases m with ⟨e', he', hd⟩ | ⟨d, rfl, plain', -, hd⟩ | hd
    · rw [hc, hd] at same
      simp only [List.cons_append, List.cons.injEq] at same
      exact ⟨(short _ he).2 _ he' same.2.1, same.2.2⟩
    · rw [hc, hd] at same
      exact absurd (List.cons.inj same).1.symm plain'
    · rw [hc, hd] at same
      simp only [unicodeEscape, List.cons_append, List.cons.injEq] at same
      exact absurd same.2.1 (short _ he).1
  · rcases escapeUnit_cases m with ⟨e', he', hd⟩ | ⟨d, rfl, plain', -, hd⟩ | hd
    · rw [hc, hd] at same
      exact absurd (List.cons.inj same).1 plain
    · rw [hc, hd] at same
      obtain ⟨rfl, ends⟩ := List.cons.inj same
      exact ⟨rfl, ends⟩
    · rw [hc, hd] at same
      exact absurd (List.cons.inj same).1 plain
  · rcases escapeUnit_cases m with ⟨e', he', hd⟩ | ⟨d, rfl, plain', -, hd⟩ | hd
    · rw [hc, hd] at same
      simp only [unicodeEscape, List.cons_append, List.cons.injEq] at same
      exact absurd same.2.1.symm (short _ he').1
    · rw [hc, hd] at same
      exact absurd (List.cons.inj same).1.symm plain'
    · rw [hc, hd] at same
      exact unicodeEscape_append hn hm same

theorem escapeUnit_delimits :
    Delimits (fun n => n < 0x10000) escapeUnit (fun _ => True) [] ['"'] where
  apart lead hlead n _ x y := by
    obtain rfl : lead = [] := by simpa using hlead
    rcases escapeUnit_cases n with ⟨e, -, hc⟩ | ⟨c, -, -, plain, hc⟩ | hc
    · simp [hc]
    · simp [hc, plain]
    · simp [hc, unicodeEscape]
  sep_stops _ _ _ := trivial
  close_stops _ := trivial

/-- A pair of surrogates stands in no string, as `json.loads` makes one code point of it. -/
def combined : Text → Bool
  | [] => true
  | [_] => true
  | c :: d :: rest => !(c.isHigh && d.isLow) && combined (d :: rest)

theorem combined_tail {c : CodePoint} {s : Text} (h : combined (c :: s) = true) :
    combined s = true := by
  cases s with
  | nil => rfl
  | cons d rest => exact (Bool.and_eq_true ..▸ h).2

theorem units_cases (c : CodePoint) : (c.toNat < 0x10000 ∧ c.units = [c.toNat]) ∨
    ∃ high low, (0xd800 ≤ high ∧ high ≤ 0xdbff) ∧ (0xdc00 ≤ low ∧ low ≤ 0xdfff) ∧
      c.units = [high, low] ∧ c.toNat = 0x10000 + (high - 0xd800) * 0x400 + (low - 0xdc00) := by
  have inRange := c.inRange
  unfold CodePoint.units
  split
  · exact .inl ⟨‹_›, rfl⟩
  · exact .inr ⟨_, _, by omega, by omega, rfl, by omega⟩

theorem units_lt (c : CodePoint) : ∀ n ∈ c.units, n < 0x10000 := by
  rcases units_cases c with ⟨small, units⟩ | ⟨high, low, hhigh, hlow, units, -⟩
  · rw [units]
    exact List.forall_mem_singleton.mpr small
  · rw [units, List.forall_mem_cons, List.forall_mem_singleton]
    omega

theorem isHigh_iff (c : CodePoint) : c.isHigh = true ↔ 0xd800 ≤ c.toNat ∧ c.toNat ≤ 0xdbff := by
  simp [CodePoint.isHigh]

theorem isLow_iff (c : CodePoint) : c.isLow = true ↔ 0xdc00 ≤ c.toNat ∧ c.toNat ≤ 0xdfff := by
  simp [CodePoint.isLow]

/-- A low surrogate comes first only where it stands alone. -/
theorem starts_low {s : Text} {n : Nat} {rest : List Nat} (low : 0xdc00 ≤ n ∧ n ≤ 0xdfff)
    (same : s.flatMap CodePoint.units = n :: rest) : ∃ c s', s = c :: s' ∧ c.isLow = true := by
  cases s with
  | nil => cases same
  | cons c s' =>
    refine ⟨c, s', rfl, ?_⟩
    rw [List.flatMap_cons] at same
    rcases units_cases c with ⟨-, units⟩ | ⟨high, low', hhigh, -, units, -⟩
    · rw [units] at same
      rw [isLow_iff, (List.cons.inj same).1]
      exact low
    · rw [units] at same
      have first := (List.cons.inj same).1
      omega

/-- A high surrogate alone is not taken for the first half of a pair. -/
theorem units_apart {c d : CodePoint} {s t : Text} (hs : combined (c :: s) = true)
    (small : c.units = [c.toNat]) {high low : Nat} (hhigh : 0xd800 ≤ high ∧ high ≤ 0xdbff)
    (hlow : 0xdc00 ≤ low ∧ low ≤ 0xdfff) (pair : d.units = [high, low]) :
    (c :: s).flatMap CodePoint.units ≠ (d :: t).flatMap CodePoint.units := by
  intro same
  rw [List.flatMap_cons, List.flatMap_cons, small, pair] at same
  obtain ⟨first, rest⟩ := List.cons.inj same
  obtain ⟨e, s', rfl, isLow⟩ := starts_low hlow rest
  have isHigh : c.isHigh = true := (isHigh_iff c).mpr (first ▸ hhigh)
  simp [combined, isHigh, isLow] at hs

theorem units_injective {s t : Text} (hs : combined s = true) (ht : combined t = true)
    (same : s.flatMap CodePoint.units = t.flatMap CodePoint.units) : s = t := by
  induction s generalizing t with
  | nil =>
    cases t with
    | nil => rfl
    | cons d t =>
      rcases units_cases d with ⟨-, units⟩ | ⟨_, _, -, -, units, -⟩ <;> simp [units] at same
  | cons c s ih =>
    cases t with
    | nil =>
      rcases units_cases c with ⟨-, units⟩ | ⟨_, _, -, -, units, -⟩ <;> simp [units] at same
    | cons d t =>
      have ends (own : c = d) : c :: s = d :: t := by
        subst own
        rw [List.flatMap_cons, List.flatMap_cons] at same
        rw [ih (combined_tail hs) (combined_tail ht) (List.append_cancel_left same)]
      rcases units_cases c with ⟨-, units⟩ | ⟨high, low, hhigh, hlow, units, number⟩
      · rcases units_cases d with ⟨-, units'⟩ | ⟨high', low', hhigh', hlow', units', -⟩
        · rw [List.flatMap_cons, List.flatMap_cons, units, units'] at same
          exact ends (CodePoint.toNat_inj (List.cons.inj same).1)
        · exact absurd same (units_apart hs units hhigh' hlow' units')
      · rcases units_cases d with ⟨-, units'⟩ | ⟨high', low', hhigh', hlow', units', number'⟩
        · exact absurd same.symm (units_apart ht units' hhigh hlow units)
        · rw [List.flatMap_cons, List.flatMap_cons, units, units'] at same
          simp only [List.cons_append, List.cons.injEq] at same
          exact ends (CodePoint.toNat_inj (by rw [number, number', same.1, same.2.1]))

theorem quote_reads {s : Text} (hs : combined s = true) :
    ReadsBack (fun s => combined s = true) quote (fun _ => True) s := by
  intro t ht x y _ _ same
  have byUnits (s : Text) : delimited escapeChar [] ['"'] [] s =
      delimited escapeUnit [] ['"'] [] (s.flatMap CodePoint.units) := by
    rw [delimited_nil, delimited_nil, List.flatMap_assoc]
    rfl
  have small (s : Text) : ∀ n ∈ s.flatMap CodePoint.units, n < 0x10000 := by
    intro n hn
    obtain ⟨c, -, hc⟩ := List.mem_flatMap.mp hn
    exact units_lt c n hc
  have same := (List.cons.inj same).2
  rw [byUnits, byUnits] at same
  obtain ⟨units, ends⟩ := escapeUnit_delimits.reads (by simp)
    (fun n hn => escapeUnit_reads (small s n hn)) (small s) (small t) same
  exact ⟨units_injective hs ht units, ends⟩

/-- A string of characters is what `json.loads` makes of them. -/
theorem combined_of_free {s : Text} (free : ∀ c ∈ s, c.isSurrogate = false) :
    combined s = true := by
  induction s with
  | nil => rfl
  | cons c s ih =>
    rw [List.forall_mem_cons] at free
    cases s with
    | nil => rfl
    | cons d rest =>
      have high : c.isHigh = false := (Bool.or_eq_false_iff.mp free.1).1
      rw [combined, ih free.2, high]
      rfl

theorem combined_textOf (s : Str) : combined (textOf s) = true :=
  combined_of_free (List.forall_mem_map.mpr fun c _ => CodePoint.ofChar_isSurrogate c)

end Reading

section Values

/-- The characters of the finite numbers that the encoder writes. -/
def numberChar (c : Char) : Bool := c.isDigit || c ∈ ['+', '-', '.', 'e']

def isNumberText (literal : Str) : Bool :=
  literal.head?.any (fun c => c.isDigit || c = '-') && literal.all numberChar

/-- No number goes on with the text. -/
def StopsNumber (text : Str) : Prop := ∀ c ∈ text.head?, numberChar c = false

namespace Json
mutual

/-- Numbers are written as numbers, strings are read from JSON, and no object has a key twice
or one with a surrogate, which `model_dump` refuses. -/
def wellFormed : Json Text → Bool
  | .null | .bool _ => true
  | .num literal => isNumberText literal
  | .str s => combined s
  | .arr items => wellFormedItems items
  | .obj members => Decidable.decide (members.map Prod.fst).Nodup && wellFormedMembers members

def wellFormedItems : List (Json Text) → Bool
  | [] => true
  | item :: items => item.wellFormed && wellFormedItems items

def wellFormedMembers : List (Text × Json Text) → Bool
  | [] => true
  | (key, value) :: members =>
    key.all (fun c => !c.isSurrogate) && value.wellFormed && wellFormedMembers members

end

theorem wellFormedItems_iff {items : List (Json Text)} :
    wellFormedItems items = true ↔ ∀ item ∈ items, item.wellFormed = true := by
  induction items with
  | nil => simp [wellFormedItems]
  | cons item items ih => simp [wellFormedItems, ih]

/-- A key without surrogates and a value. -/
def MemberWellFormed (m : Text × Json Text) : Prop :=
  (∀ c ∈ m.1, c.isSurrogate = false) ∧ m.2.wellFormed = true

theorem wellFormedMembers_iff {members : List (Text × Json Text)} :
    wellFormedMembers members = true ↔ ∀ m ∈ members, MemberWellFormed m := by
  induction members with
  | nil => simp [wellFormedMembers]
  | cons m members ih => simp [wellFormedMembers, ih, MemberWellFormed, and_assoc]

theorem MemberWellFormed.coded {m : Text × Json Text} (h : MemberWellFormed m) :
    combined m.1 = true ∧ m.2.wellFormed = true :=
  ⟨combined_of_free h.1, h.2⟩

/-- A member of an object. -/
def writeMember (m : Text × Json Text) : Str := quote m.1 ++ ([':', ' '] ++ m.2.write)

theorem writeItems_eq (lead : Str) (items : List (Json Text)) :
    writeItems lead items = delimited write [',', ' '] [']'] lead items := by
  induction items generalizing lead with
  | nil => rfl
  | cons item items ih => rw [writeItems, delimited, ih]

theorem writeMembers_eq (lead : Str) (members : List (Text × Json Text)) :
    writeMembers lead members = delimited writeMember [',', ' '] ['}'] lead members := by
  induction members generalizing lead with
  | nil => rfl
  | cons m members ih => rw [writeMembers, delimited, ih, writeMember]

def kind : Json Text → Nat
  | .null => 0
  | .bool _ => 1
  | .num _ => 2
  | .str _ => 3
  | .arr _ => 4
  | .obj _ => 5

/-- The kind of the values that are written with the character first. -/
def startKind (c : Char) : Nat :=
  if c = 'n' then 0 else if c = 't' ∨ c = 'f' then 1 else if c = '"' then 3
  else if c = '[' then 4 else if c = '{' then 5 else if c = ']' then 6 else 2

theorem write_starts {a : Json Text} (h : a.wellFormed = true) :
    ∃ c out, a.write = c :: out ∧ startKind c = a.kind := by
  cases a with
  | null => exact ⟨_, _, rfl, rfl⟩
  | bool b => cases b <;> exact ⟨_, _, rfl, rfl⟩
  | num literal =>
    rw [wellFormed, isNumberText, Bool.and_eq_true, Option.any_eq_true] at h
    obtain ⟨⟨c, hc, starts⟩, -⟩ := h
    obtain ⟨out, rfl⟩ := List.head?_eq_some_iff.mp hc
    refine ⟨c, out, rfl, ?_⟩
    have others : ∀ d ∈ ['n', 't', 'f', '"', '[', '{', ']'],
        (d.isDigit || d = '-') = false := by decide
    have differs {d : Char} (hd : d ∈ ['n', 't', 'f', '"', '[', '{', ']']) : c ≠ d := by
      rintro rfl
      rw [others c hd] at starts
      cases starts
    simp [startKind, kind, differs]
  | str s => exact ⟨_, _, rfl, rfl⟩
  | arr items => exact ⟨_, _, rfl, rfl⟩
  | obj members => exact ⟨_, _, rfl, rfl⟩

theorem kind_eq {a b : Json Text} (ha : a.wellFormed = true) (hb : b.wellFormed = true) {x y : Str}
    (same : a.write ++ x = b.write ++ y) : a.kind = b.kind := by
  obtain ⟨c, out, first, kind_a⟩ := write_starts ha
  obtain ⟨d, out', first', kind_b⟩ := write_starts hb
  rw [first, first'] at same
  rw [← kind_a, ← kind_b, (List.cons.inj same).1]

theorem items_delimit :
    Delimits (fun a => a.wellFormed = true) write StopsNumber [',', ' '] [']'] where
  apart lead hlead a h x y same := by
    obtain ⟨c, out, first, kind_a⟩ := write_starts h
    rcases List.mem_pair.mp hlead with rfl | rfl
    · rw [first] at same
      obtain ⟨rfl, -⟩ := List.cons.inj same
      cases a <;> cases kind_a
    · cases same
  sep_stops a _ x := by simp [StopsNumber, numberChar]
  close_stops x := by simp [StopsNumber, numberChar]

theorem members_delimit : Delimits (fun m => combined m.1 = true ∧ m.2.wellFormed = true)
    writeMember StopsNumber [',', ' '] ['}'] where
  apart lead hlead m h x y same := by
    rcases List.mem_pair.mp hlead with rfl | rfl <;> cases same
  sep_stops m _ x := by simp [StopsNumber, numberChar]
  close_stops x := by simp [StopsNumber, numberChar]

theorem number_reads {l m x y : Str} (hl : isNumberText l = true) (hm : isNumberText m = true)
    (stops : StopsNumber x) (stops' : StopsNumber y) (same : l ++ x = m ++ y) : l = m ∧ x = y := by
  have taken {l x : Str} (hl : isNumberText l = true) (stops : StopsNumber x) :
      (l ++ x).takeWhile numberChar = l := by
    rw [isNumberText, Bool.and_eq_true, List.all_eq_true] at hl
    rw [List.takeWhile_append_of_pos hl.2]
    cases x with
    | nil => exact List.append_nil l
    | cons c x => rw [List.takeWhile_cons_of_neg (by simp [stops c rfl]), List.append_nil]
  have own : l = m := by rw [← taken hl stops, same, taken hm stops']
  subst own
  exact ⟨rfl, List.append_cancel_left same⟩

mutual

/-- A well-formed value is read back from its text. -/
theorem write_reads : (a : Json Text) → a.wellFormed = true →
    ReadsBack (fun a => a.wellFormed = true) write StopsNumber a
  | .null, h => fun b hb x y _ _ same => by
    have kinds := kind_eq h hb same
    cases b with
    | null => exact ⟨rfl, List.append_cancel_left same⟩
    | _ => cases kinds
  | .bool p, h => fun b hb x y _ _ same => by
    have kinds := kind_eq h hb same
    cases b with
    | bool q =>
      cases p <;> cases q
      · exact ⟨rfl, List.append_cancel_left same⟩
      · cases same
      · cases same
      · exact ⟨rfl, List.append_cancel_left same⟩
    | _ => cases kinds
  | .num l, h => fun b hb x y stops stops' same => by
    have kinds := kind_eq h hb same
    cases b with
    | num m =>
      rw [wellFormed] at h hb
      obtain ⟨rfl, ends⟩ := number_reads h hb stops stops' same
      exact ⟨rfl, ends⟩
    | _ => cases kinds
  | .str s, h => fun b hb x y _ _ same => by
    have kinds := kind_eq h hb same
    cases b with
    | str t =>
      obtain ⟨rfl, ends⟩ := quote_reads h t hb x y trivial trivial same
      exact ⟨rfl, ends⟩
    | _ => cases kinds
  | .arr items, h => fun b hb x y _ _ same => by
    have kinds := kind_eq h hb same
    cases b with
    | arr items' =>
      rw [wellFormed] at h hb
      rw [write, write, writeItems_eq, writeItems_eq] at same
      obtain ⟨rfl, ends⟩ := items_delimit.reads (by simp) (items_read items h)
        (wellFormedItems_iff.mp h) (wellFormedItems_iff.mp hb) (List.cons.inj same).2
      exact ⟨rfl, ends⟩
    | _ => cases kinds
  | .obj members, h => fun b hb x y _ _ same => by
    have kinds := kind_eq h hb same
    cases b with
    | obj members' =>
      rw [wellFormed, Bool.and_eq_true] at h hb
      rw [write, write, writeMembers_eq, writeMembers_eq] at same
      have values := wellFormedMembers_iff.mp h.2
      have values' := wellFormedMembers_iff.mp hb.2
      have each (m : Text × Json Text) (hm : m ∈ members) : ReadsBack
          (fun m => combined m.1 = true ∧ m.2.wellFormed = true) writeMember StopsNumber m :=
        (quote_reads (values m hm).coded.1).pair (members_read members h.2 m hm)
          (fun _ _ _ => trivial) (values m hm).2
      obtain ⟨rfl, ends⟩ := members_delimit.reads (by simp) each
        (fun m hm => (values m hm).coded) (fun m hm => (values' m hm).coded) (List.cons.inj same).2
      exact ⟨rfl, ends⟩
    | _ => cases kinds

theorem items_read : (items : List (Json Text)) → wellFormedItems items = true → ∀ a ∈ items,
    ReadsBack (fun a => a.wellFormed = true) write StopsNumber a
  | [], _ => by simp
  | item :: items, h => by
    rw [wellFormedItems, Bool.and_eq_true] at h
    exact List.forall_mem_cons.mpr ⟨write_reads item h.1, items_read items h.2⟩

theorem members_read : (members : List (Text × Json Text)) → wellFormedMembers members = true →
    ∀ m ∈ members, ReadsBack (fun a => a.wellFormed = true) write StopsNumber m.2
  | [], _ => by simp
  | (_, value) :: members, h => by
    rw [wellFormedMembers, Bool.and_eq_true, Bool.and_eq_true] at h
    exact List.forall_mem_cons.mpr ⟨write_reads value h.1.2, members_read members h.2⟩

end

end Json

end Values

section Order

namespace Json

/-- A member whose value has its keys sorted. -/
def sortMember (m : Text × Json Text) : Text × Json Text := (m.1, m.2.sortKeys)

theorem sortItems_eq (items : List (Json Text)) : sortItems items = items.map sortKeys := by
  induction items with
  | nil => rfl
  | cons item items ih => rw [sortItems, ih, List.map_cons]

theorem insertMember_perm (key : Text) (value : Json Text) (members : List (Text × Json Text)) :
    (insertMember key value members).Perm ((key, value) :: members) := by
  induction members with
  | nil => exact .refl _
  | cons m members ih =>
    rw [insertMember]
    split
    · exact .refl _
    · exact (ih.cons m).trans (.swap _ _ _)

theorem sortMembers_perm (members : List (Text × Json Text)) :
    (sortMembers members).Perm (members.map sortMember) := by
  induction members with
  | nil => exact .refl _
  | cons m members ih => exact (insertMember_perm m.1 m.2.sortKeys _).trans (ih.cons _)

/-- Members in the order of their keys. -/
def Ordered (members : List (Text × Json Text)) : Prop := members.Pairwise fun m n => m.1 ≤ n.1

theorem Ordered.insertMember {members : List (Text × Json Text)} (h : Ordered members) (key : Text)
    (value : Json Text) : Ordered (insertMember key value members) := by
  induction members with
  | nil => exact List.pairwise_singleton _ _
  | cons m members ih =>
    obtain ⟨first, rest⟩ := List.pairwise_cons.mp h
    rw [Json.insertMember]
    split
    · rename_i before
      exact List.pairwise_cons.mpr ⟨List.forall_mem_cons.mpr
        ⟨before, fun n hn => before.trans (first n hn)⟩, h⟩
    · rename_i after
      refine List.pairwise_cons.mpr ⟨fun n hn => ?_, ih rest⟩
      rcases List.mem_cons.mp ((insertMember_perm key value members).mem_iff.mp hn) with rfl | hn
      · exact (not_le.mp after).le
      · exact first n hn

theorem sortMembers_ordered (members : List (Text × Json Text)) :
    Ordered (sortMembers members) := by
  induction members with
  | nil => exact List.Pairwise.nil
  | cons m members ih => exact ih.insertMember m.1 m.2.sortKeys

theorem keys_sortMember (members : List (Text × Json Text)) :
    (members.map sortMember).map Prod.fst = members.map Prod.fst := by
  rw [List.map_map]
  rfl

theorem sortMembers_keys (members : List (Text × Json Text)) :
    ((sortMembers members).map Prod.fst).Perm (members.map Prod.fst) :=
  keys_sortMember members ▸ (sortMembers_perm members).map Prod.fst

/-- Members with each key once are sorted alike exactly if they are the same up to their order. -/
theorem sortMembers_eq_iff {members members' : List (Text × Json Text)}
    (distinct : (members.map Prod.fst).Nodup) (distinct' : (members'.map Prod.fst).Nodup) :
    sortMembers members = sortMembers members' ↔
      ∀ m, m ∈ members.map sortMember ↔ m ∈ members'.map sortMember := by
  constructor
  · intro same m
    rw [← (sortMembers_perm members).mem_iff, same, (sortMembers_perm members').mem_iff]
  · intro same
    have perm : (sortMembers members).Perm (sortMembers members') := by
      refine (sortMembers_perm members).trans (.trans ?_ (sortMembers_perm members').symm)
      refine (List.perm_ext_iff_of_nodup ?_ ?_).mpr same
      · exact .of_map Prod.fst (keys_sortMember members ▸ distinct)
      · exact .of_map Prod.fst (keys_sortMember members' ▸ distinct')
    refine perm.eq_of_pairwise (fun m n hm hn before after => ?_) (sortMembers_ordered members)
      (sortMembers_ordered members')
    exact List.inj_on_of_nodup_map ((sortMembers_keys members').nodup_iff.mpr distinct')
      (perm.mem_iff.mp hm) hn (le_antisymm before after)

mutual

theorem sortKeys_wellFormed : (a : Json Text) → a.wellFormed = true → a.sortKeys.wellFormed = true
  | .null, _ | .bool _, _ => rfl
  | .num _, h | .str _, h => h
  | .arr items, h => by
    rw [sortKeys, wellFormed, sortItems_eq, wellFormedItems_iff]
    rw [wellFormed] at h
    exact List.forall_mem_map.mpr (sortItems_wellFormed items h)
  | .obj members, h => by
    rw [wellFormed, Bool.and_eq_true, decide_eq_true_eq] at h
    rw [sortKeys, wellFormed, Bool.and_eq_true, decide_eq_true_eq, wellFormedMembers_iff]
    refine ⟨(sortMembers_keys members).nodup_iff.mpr h.1, fun m hm => ?_⟩
    obtain ⟨n, hn, rfl⟩ := List.mem_map.mp ((sortMembers_perm members).mem_iff.mp hm)
    exact ⟨(wellFormedMembers_iff.mp h.2 n hn).1, sortMembers_wellFormed members h.2 n hn⟩

theorem sortItems_wellFormed : (items : List (Json Text)) → wellFormedItems items = true →
    ∀ a ∈ items, a.sortKeys.wellFormed = true
  | [], _ => by simp
  | item :: items, h => by
    rw [wellFormedItems, Bool.and_eq_true] at h
    exact List.forall_mem_cons.mpr ⟨sortKeys_wellFormed item h.1, sortItems_wellFormed items h.2⟩

theorem sortMembers_wellFormed : (members : List (Text × Json Text)) →
    wellFormedMembers members = true → ∀ m ∈ members, m.2.sortKeys.wellFormed = true
  | [], _ => by simp
  | (_, value) :: members, h => by
    rw [wellFormedMembers, Bool.and_eq_true, Bool.and_eq_true] at h
    exact List.forall_mem_cons.mpr
      ⟨sortKeys_wellFormed value h.1.2, sortMembers_wellFormed members h.2⟩

end

mutual

theorem jsonMode_jsonMode : (a : Json Text) → a.jsonMode.jsonMode = a.jsonMode
  | .null | .bool _ | .str _ => rfl
  | .num literal => by
    rw [jsonMode]
    split
    · rfl
    · rw [jsonMode, if_neg ‹_›]
  | .arr items => by rw [jsonMode, jsonMode, jsonModeItems_twice items]
  | .obj members => by rw [jsonMode, jsonMode, jsonModeMembers_twice members]

theorem jsonModeItems_twice : (items : List (Json Text)) →
    jsonModeItems (jsonModeItems items) = jsonModeItems items
  | [] => rfl
  | item :: items => by
    rw [jsonModeItems, jsonModeItems, jsonMode_jsonMode item, jsonModeItems_twice items]

theorem jsonModeMembers_twice : (members : List (Text × Json Text)) →
    jsonModeMembers (jsonModeMembers members) = jsonModeMembers members
  | [] => rfl
  | (_, value) :: members => by
    rw [jsonModeMembers, jsonModeMembers, jsonMode_jsonMode value, jsonModeMembers_twice members]

end

/-- The same value, with the members of its objects in any order. -/
inductive Alike : Json Text → Json Text → Prop
  | null : Alike .null .null
  | bool (b : Bool) : Alike (.bool b) (.bool b)
  | num (literal : Str) : Alike (.num literal) (.num literal)
  | str (s : Text) : Alike (.str s) (.str s)
  | arr {items items' : List (Json Text)} (length : items.length = items'.length)
      (each : ∀ p ∈ items.zip items', Alike p.1 p.2) : Alike (.arr items) (.arr items')
  | obj {members members' : List (Text × Json Text)}
      (keys : ∀ key, key ∈ members.map Prod.fst ↔ key ∈ members'.map Prod.fst)
      (values : ∀ key a b, (key, a) ∈ members → (key, b) ∈ members' → Alike a b) :
      Alike (.obj members) (.obj members')

theorem map_eq_of_zip {α β : Type} {f : α → β} {as bs : List α} (length : as.length = bs.length)
    (each : ∀ p ∈ as.zip bs, f p.1 = f p.2) : as.map f = bs.map f := by
  induction as generalizing bs with
  | nil => rw [List.length_eq_zero_iff.mp length.symm]
  | cons a as ih =>
    cases bs with
    | nil => cases length
    | cons b bs =>
      rw [List.zip_cons_cons, List.forall_mem_cons] at each
      rw [List.map_cons, List.map_cons, each.1, ih (Nat.succ.inj length) each.2]

theorem Alike.sortKeys_eq {a b : Json Text} (h : Alike a b) (ha : a.wellFormed = true)
    (hb : b.wellFormed = true) : a.sortKeys = b.sortKeys := by
  induction h with
  | null | bool | num | str => rfl
  | arr length each ih =>
    rw [wellFormed, wellFormedItems_iff] at ha hb
    rw [sortKeys, sortKeys, sortItems_eq, sortItems_eq, map_eq_of_zip length fun p hp =>
      ih p hp (ha _ (List.of_mem_zip hp).1) (hb _ (List.of_mem_zip hp).2)]
  | @obj members members' keys values ih =>
    rw [wellFormed, Bool.and_eq_true, decide_eq_true_eq, wellFormedMembers_iff] at ha hb
    rw [sortKeys, sortKeys, (sortMembers_eq_iff ha.1 hb.1).mpr]
    intro m
    simp only [List.mem_map]
    constructor
    · rintro ⟨⟨key, a⟩, hm, rfl⟩
      obtain ⟨⟨key', b⟩, hm', rfl⟩ := List.mem_map.mp ((keys key).mp (List.mem_map_of_mem hm))
      exact ⟨(key', b), hm', congrArg (Prod.mk key')
        (ih key' a b hm hm' (ha.2 _ hm).2 (hb.2 _ hm').2).symm⟩
    · rintro ⟨⟨key, b⟩, hm', rfl⟩
      obtain ⟨⟨key', a⟩, hm, rfl⟩ := List.mem_map.mp ((keys key).mpr (List.mem_map_of_mem hm'))
      exact ⟨(key', a), hm, congrArg (Prod.mk key')
        (ih key' a b hm hm' (ha.2 _ hm).2 (hb.2 _ hm').2)⟩

mutual

theorem alike_of_sortKeys : (a : Json Text) → a.wellFormed = true → ∀ b, b.wellFormed = true →
    a.sortKeys = b.sortKeys → Alike a b
  | .null, _ => fun b _ same => by
    cases b <;> cases same
    exact .null
  | .bool p, _ => fun b _ same => by
    cases b <;> cases same
    exact .bool p
  | .num l, _ => fun b _ same => by
    cases b <;> cases same
    exact .num l
  | .str s, _ => fun b _ same => by
    cases b <;> cases same
    exact .str s
  | .arr items, h => fun b hb same => by
    cases b with
    | arr items' =>
      rw [sortKeys, sortKeys, sortItems_eq, sortItems_eq, Json.arr.injEq] at same
      rw [wellFormed] at h
      rw [wellFormed, wellFormedItems_iff] at hb
      have length : items.length = items'.length := by simpa using congrArg List.length same
      exact .arr length (alike_of_sortItems items h items' hb same)
    | _ => cases same
  | .obj members, h => fun b hb same => by
    cases b with
    | obj members' =>
      rw [wellFormed, Bool.and_eq_true, decide_eq_true_eq] at h hb
      rw [sortKeys, sortKeys, Json.obj.injEq, sortMembers_eq_iff h.1 hb.1] at same
      have keys (key : Text) :
          key ∈ members.map Prod.fst ↔ key ∈ members'.map Prod.fst := by
        rw [← keys_sortMember members, ← keys_sortMember members', List.mem_map, List.mem_map]
        simp only [same]
      refine .obj keys fun key a b ha hb' => ?_
      refine alike_of_sortMembers members h.2 (key, a) ha b
        (wellFormedMembers_iff.mp hb.2 _ hb').2 ?_
      obtain ⟨n, hn, equal⟩ := List.mem_map.mp
        ((same (sortMember (key, a))).mp (List.mem_map_of_mem ha))
      have first : n.1 = key := congrArg Prod.fst equal
      have own : n = (key, b) := List.inj_on_of_nodup_map hb.1 hn hb' first
      rw [own] at equal
      exact (congrArg Prod.snd equal).symm
    | _ => cases same

theorem alike_of_sortItems : (items : List (Json Text)) → wellFormedItems items = true → ∀ items',
    (∀ a ∈ items', a.wellFormed = true) → items.map sortKeys = items'.map sortKeys →
    ∀ p ∈ items.zip items', Alike p.1 p.2
  | [], _ => by simp
  | item :: items, h => fun items' h' same => by
    rw [wellFormedItems, Bool.and_eq_true] at h
    cases items' with
    | nil => cases same
    | cons item' items' =>
      rw [List.forall_mem_cons] at h'
      rw [List.map_cons, List.map_cons, List.cons.injEq] at same
      rw [List.zip_cons_cons]
      exact List.forall_mem_cons.mpr ⟨alike_of_sortKeys item h.1 item' h'.1 same.1,
        alike_of_sortItems items h.2 items' h'.2 same.2⟩

theorem alike_of_sortMembers : (members : List (Text × Json Text)) →
    wellFormedMembers members = true →
    ∀ m ∈ members, ∀ b, b.wellFormed = true → m.2.sortKeys = b.sortKeys → Alike m.2 b
  | [], _ => by simp
  | (_, value) :: members, h => by
    rw [wellFormedMembers, Bool.and_eq_true, Bool.and_eq_true] at h
    exact List.forall_mem_cons.mpr
      ⟨alike_of_sortKeys value h.1.2, alike_of_sortMembers members h.2⟩

end

/-- The text of a value determines it up to the order of its members. -/
theorem dumps_eq_iff {a b : Json Text} (ha : a.wellFormed = true) (hb : b.wellFormed = true) :
    a.dumps = b.dumps ↔ Alike a b := by
  constructor
  · intro same
    refine alike_of_sortKeys a ha b hb ?_
    have stops : StopsNumber [] := by simp [StopsNumber]
    exact (write_reads a.sortKeys (sortKeys_wellFormed a ha) b.sortKeys (sortKeys_wellFormed b hb)
      [] [] stops stops (congrArg (· ++ []) same)).1
  · intro alike
    rw [dumps, dumps, alike.sortKeys_eq ha hb]

theorem alike_str {s t : Text} : Alike (.str s) (.str t) ↔ s = t := by
  constructor
  · rintro ⟨⟩
    rfl
  · rintro rfl
    exact .str s

theorem alike_arr_iff {items items' : List (Json Text)} :
    Alike (.arr items) (.arr items') ↔ List.Forall₂ Alike items items' := by
  rw [List.forall₂_iff_zip]
  constructor
  · rintro (_ | _ | _ | _ | ⟨length, each⟩)
    exact ⟨length, fun hp => each _ hp⟩
  · rintro ⟨length, each⟩
    exact .arr length fun p hp => each hp

theorem keys_of_mem_zip {members members' : List (Text × Json Text)}
    (keys : members.map Prod.fst = members'.map Prod.fst)
    {p : (Text × Json Text) × (Text × Json Text)}
    (hp : p ∈ members.zip members') : p.1.1 = p.2.1 := by
  induction members generalizing members' with
  | nil => cases hp
  | cons m members ih =>
    cases members' with
    | nil => cases hp
    | cons m' members' =>
      rw [List.map_cons, List.map_cons, List.cons.injEq] at keys
      rcases List.mem_cons.mp hp with rfl | hp
      · exact keys.1
      · exact ih keys.2 hp

theorem mem_zip_of_keys {members members' : List (Text × Json Text)}
    (keys : members.map Prod.fst = members'.map Prod.fst) (distinct : (members.map Prod.fst).Nodup)
    {key : Text} {a b : Json Text} (ha : (key, a) ∈ members) (hb : (key, b) ∈ members') :
    ((key, a), (key, b)) ∈ members.zip members' := by
  induction members generalizing members' with
  | nil => cases ha
  | cons m members ih =>
    cases members' with
    | nil => cases hb
    | cons m' members' =>
      rw [List.map_cons, List.map_cons, List.cons.injEq] at keys
      rw [List.map_cons, List.nodup_cons] at distinct
      rw [List.zip_cons_cons, List.mem_cons]
      rcases List.mem_cons.mp ha with rfl | ha
      · rcases List.mem_cons.mp hb with rfl | hb
        · exact .inl rfl
        · have inside : key ∈ members'.map Prod.fst := List.mem_map_of_mem hb
          rw [← keys.2] at inside
          exact absurd inside distinct.1
      · rcases List.mem_cons.mp hb with rfl | hb
        · have inside : key ∈ members.map Prod.fst := List.mem_map_of_mem ha
          exact absurd (keys.1 ▸ inside) distinct.1
        · exact .inr (ih keys.2 distinct.2 ha hb)

/-- Objects with the same keys in one order are alike member by member. -/
theorem alike_obj_iff {members members' : List (Text × Json Text)}
    (keys : members.map Prod.fst = members'.map Prod.fst)
    (distinct : (members.map Prod.fst).Nodup) :
    Alike (.obj members) (.obj members') ↔ ∀ p ∈ members.zip members', Alike p.1.2 p.2.2 := by
  constructor
  · rintro (_ | _ | _ | _ | _ | ⟨-, values⟩) p hp
    obtain ⟨inside, inside'⟩ := List.of_mem_zip hp
    have same : p.2 = (p.1.1, p.2.2) := Prod.ext (keys_of_mem_zip keys hp).symm rfl
    exact values p.1.1 _ _ inside (same ▸ inside')
  · intro each
    refine .obj (fun key => by rw [keys]) fun key a b ha hb => ?_
    exact each _ (mem_zip_of_keys keys distinct ha hb)

end Json

end Order

section Requests
variable (timestampText : Datetime → Str)

def textJson (s : Str) : Json Text := .str (textOf s)

def optionalText : Option Str → Json Text
  | none => .null
  | some text => textJson text

def itemMembers (item : LogIngestRequest) : List (Text × Json Text) :=
  [(textOf "service_name".toList, textJson item.serviceName),
    (textOf "environment".toList, textJson item.environment.value),
    (textOf "log_level".toList, textJson item.logLevel.value),
    (textOf "message".toList, textJson item.message),
    (textOf "exception_type".toList, optionalText item.exceptionType),
    (textOf "stack_trace".toList, optionalText item.stackTrace),
    (textOf "metadata".toList, item.metadata.jsonMode),
    (textOf "timestamp".toList, textJson (timestampText item.timestamp))]

/-- `item.model_dump(mode="json")` -/
def modelDump (item : LogIngestRequest) : Json Text := .obj (itemMembers timestampText item)

/-- The `request_hash` of `enqueue_bulk_ingestion_job`. -/
def requestHash [Platform] (logs : List LogIngestRequest) : Str :=
  Platform.sha256Hex (Json.arr (logs.map (modelDump timestampText))).dumps

/-- The same log, with the members of its metadata in any order and null for the numbers that
JSON does not have. -/
structure SameItem (a b : LogIngestRequest) : Prop where
  serviceName : a.serviceName = b.serviceName
  environment : a.environment = b.environment
  logLevel : a.logLevel = b.logLevel
  message : a.message = b.message
  exceptionType : a.exceptionType = b.exceptionType
  stackTrace : a.stackTrace = b.stackTrace
  metadata : Json.Alike a.metadata.jsonMode b.metadata.jsonMode
  timestamp : a.timestamp = b.timestamp

theorem alike_textJson {s t : Str} : Json.Alike (textJson s) (textJson t) ↔ s = t :=
  Json.alike_str.trans textOf_injective.eq_iff

theorem alike_optionalText {s t : Option Str} :
    Json.Alike (optionalText s) (optionalText t) ↔ s = t := by
  cases s with
  | none =>
    cases t with
    | none => exact ⟨fun _ => rfl, fun _ => .null⟩
    | some t => exact ⟨(nomatch ·), (nomatch ·)⟩
  | some s =>
    cases t with
    | none => exact ⟨(nomatch ·), (nomatch ·)⟩
    | some t => exact alike_textJson.trans (Option.some_inj).symm

theorem itemMembers_keys (item : LogIngestRequest) :
    (itemMembers timestampText item).map Prod.fst =
      ["service_name".toList, "environment".toList, "log_level".toList, "message".toList,
        "exception_type".toList, "stack_trace".toList, "metadata".toList,
        "timestamp".toList].map textOf := rfl

theorem itemMembers_distinct (item : LogIngestRequest) :
    ((itemMembers timestampText item).map Prod.fst).Nodup := by
  rw [itemMembers_keys, List.nodup_map_iff textOf_injective]
  decide

theorem alike_modelDump {a b : LogIngestRequest}
    (texts : timestampText a.timestamp = timestampText b.timestamp → a.timestamp = b.timestamp) :
    Json.Alike (modelDump timestampText a) (modelDump timestampText b) ↔ SameItem a b := by
  have keys : (itemMembers timestampText a).map Prod.fst =
      (itemMembers timestampText b).map Prod.fst := by rw [itemMembers_keys, itemMembers_keys]
  rw [modelDump, modelDump, Json.alike_obj_iff keys (itemMembers_distinct timestampText a)]
  simp only [itemMembers, List.zip_cons_cons, List.zip_nil_left, List.forall_mem_cons,
    List.not_mem_nil, false_implies, implies_true, and_true, alike_textJson, alike_optionalText]
  constructor
  · rintro ⟨service, environment, level, message, exception, trace, metadata, timestamp⟩
    exact ⟨service, LogEnvironment.value_injective environment, LogLevel.value_injective level,
      message, exception, trace, metadata, texts timestamp⟩
  · intro h
    exact ⟨h.serviceName, congrArg _ h.environment, congrArg _ h.logLevel, h.message,
      h.exceptionType, h.stackTrace, h.metadata, congrArg _ h.timestamp⟩

/-- The item that the JSON of `model_dump` is read back as. -/
def LogIngestRequest.dumped (item : LogIngestRequest) : LogIngestRequest :=
  { item with metadata := item.metadata.jsonMode }

theorem requestHash_dumped [Platform] (logs : List LogIngestRequest) :
    requestHash timestampText (logs.map LogIngestRequest.dumped) =
      requestHash timestampText logs := by
  have same (item : LogIngestRequest) :
      modelDump timestampText item.dumped = modelDump timestampText item := by
    simp only [modelDump, itemMembers, LogIngestRequest.dumped, Json.jsonMode_jsonMode]
  rw [requestHash, requestHash, List.map_map]
  exact congrArg (fun items => Platform.sha256Hex (Json.arr items).dumps)
    (List.map_congr_left fun item _ => same item)

theorem textJson_wellFormed (s : Str) : (textJson s).wellFormed = true := combined_textOf s

theorem optionalText_wellFormed (s : Option Str) : (optionalText s).wellFormed = true := by
  cases s with
  | none => rfl
  | some s => exact textJson_wellFormed s

theorem memberWellFormed_textOf (name : Str) (value : Json Text) :
    Json.MemberWellFormed (textOf name, value) ↔ value.wellFormed = true :=
  and_iff_right (List.forall_mem_map.mpr fun c _ => CodePoint.ofChar_isSurrogate c)

theorem modelDump_wellFormed {item : LogIngestRequest}
    (metadata : item.metadata.jsonMode.wellFormed = true) :
    (modelDump timestampText item).wellFormed = true := by
  rw [modelDump, Json.wellFormed, Bool.and_eq_true, decide_eq_true_eq, Json.wellFormedMembers_iff]
  refine ⟨itemMembers_distinct timestampText item, ?_⟩
  simp [itemMembers, memberWellFormed_textOf, textJson_wellFormed, optionalText_wellFormed,
    metadata]

/-- Two bulk requests have one hash exactly if they list the same logs in one order. -/
theorem request_hash_exact [Platform] (hash : Function.Injective Platform.sha256Hex)
    {logs logs' : List LogIngestRequest}
    (texts : ∀ a ∈ logs, ∀ b ∈ logs', timestampText a.timestamp = timestampText b.timestamp →
      a.timestamp = b.timestamp)
    (metadata : ∀ item ∈ logs ++ logs', item.metadata.jsonMode.wellFormed = true) :
    requestHash timestampText logs = requestHash timestampText logs' ↔
      List.Forall₂ SameItem logs logs' := by
  rw [List.forall_mem_append] at metadata
  have wellFormed {logs : List LogIngestRequest}
      (metadata : ∀ item ∈ logs, item.metadata.jsonMode.wellFormed = true) :
      (Json.arr (logs.map (modelDump timestampText))).wellFormed = true := by
    rw [Json.wellFormed, Json.wellFormedItems_iff, List.forall_mem_map]
    exact fun item hi => modelDump_wellFormed timestampText (metadata item hi)
  rw [requestHash, requestHash, hash.eq_iff,
    Json.dumps_eq_iff (wellFormed metadata.1) (wellFormed metadata.2), Json.alike_arr_iff,
    List.forall₂_map_left_iff, List.forall₂_map_right_iff, List.forall₂_iff_zip,
    List.forall₂_iff_zip]
  refine and_congr_right fun _ => forall₂_congr fun a b => imp_congr_right fun hp => ?_
  have inside := List.of_mem_zip hp
  exact alike_modelDump timestampText (texts a inside.1 b inside.2)

end Requests

/-- A log whose metadata lists its members in one order or in the other, with NaN or with null. -/
def shuffledItem (second : Bool) : LogIngestRequest :=
  { minimalRequest .error { clock := 0, utcoffset := none } with
    metadata := .obj (if second then [(textOf ['b'], .null), (textOf ['a'], .num ['1'])]
      else [(textOf ['a'], .num ['1']), (textOf ['b'], .num "NaN".toList)]) }

theorem shuffledItem_same : SameItem (shuffledItem false) (shuffledItem true) where
  serviceName := rfl
  environment := rfl
  logLevel := rfl
  message := rfl
  exceptionType := rfl
  stackTrace := rfl
  metadata := by
    rw [← Json.dumps_eq_iff (by decide) (by decide)]
    decide +kernel
  timestamp := rfl

/-- The text of the epoch. -/
def epochText (_ : Datetime) : Str := "1970-01-01T00:00:00".toList

/-- The order of members does not count, the number of logs does. -/
theorem request_hash_exact_shuffled :
    letI := asciiPlatform
    requestHash epochText [shuffledItem false] = requestHash epochText [shuffledItem true] ∧
    requestHash epochText [shuffledItem false] ≠
      requestHash epochText [shuffledItem true, shuffledItem true] := by
  let := asciiPlatform
  constructor
  · refine (request_hash_exact epochText (fun _ _ same => same) ?_ (by decide)).mpr
      (.cons shuffledItem_same .nil)
    intro a ha b hb _
    rw [List.mem_singleton.mp ha, List.mem_singleton.mp hb]
    rfl
  · rw [ne_eq, request_hash_exact epochText (fun _ _ same => same)
      (by simp [shuffledItem, minimalRequest]) (by decide)]
    exact fun same => nomatch same.length_eq

end LogLens
