import Mathlib.Data.List.Basic

/-! What the application takes from the Python runtime. A string that pydantic
measured holds no surrogates and is a list of characters; the strings in the
metadata of a log are never measured and are lists of code points. The Unicode
tables and SHA-256 are parameters, with the facts about ASCII the code relies on;
theorems about them hold for every Unicode version. -/

namespace LogLens

abbrev Str := List Char

instance : LawfulBEq Str := inferInstance

/-- Microseconds since 1970-01-01T00:00:00 UTC, the resolution of `datetime`
and of `timestamptz`. -/
abbrev Timestamp := Int

def IsAscii (c : Char) : Prop := c.toNat < 128

instance (c : Char) : Decidable (IsAscii c) := inferInstanceAs (Decidable (c.toNat < 128))

/-- Whether a text holds a character is tried on its characters, not on all of them. -/
instance (priority := high) decidableForallMem (s : List Char) (P : Char → Prop)
    [DecidablePred P] : Decidable (∀ c ∈ s, P c) :=
  List.decidableBAll P s

theorem isAscii_of_all {s : Str} (h : s.all (fun c => c.toNat < 128)) :
    ∀ c ∈ s, IsAscii c := by
  simpa [IsAscii] using h

/-- ASCII whitespace of `str.isspace` and of `\s`. -/
def asciiSpace (c : Char) : Bool :=
  c = ' ' || (9 ≤ c.toNat && c.toNat ≤ 13) || (28 ≤ c.toNat && c.toNat ≤ 31)

class Platform where
  /-- `str.isalnum` of one code point -/
  isAlnum : Char → Bool
  /-- `str.isdecimal` of one code point -/
  isDecimal : Char → Bool
  /-- `str.isspace` of one code point -/
  isSpace : Char → Bool
  /-- `str.lower` -/
  lower : Str → Str
  /-- `hashlib.sha256(text.encode("utf-8")).hexdigest()` -/
  sha256Hex : Str → Str
  isAlnum_ascii : ∀ c, IsAscii c → isAlnum c = c.isAlphanum
  isDecimal_ascii : ∀ c, IsAscii c → isDecimal c = c.isDigit
  isSpace_ascii : ∀ c, IsAscii c → isSpace c = asciiSpace c
  lower_ascii : ∀ s, (∀ c ∈ s, IsAscii c) → lower s = s.map Char.toLower

/-- `str.strip()` -/
def strip [Platform] (s : Str) : Str :=
  ((s.dropWhile Platform.isSpace).reverse.dropWhile Platform.isSpace).reverse

/-- The line ends of `str.splitlines`, the pair `\r\n` apart. -/
def isLineEnd (c : Char) : Bool :=
  c = '\n' || c = '\r' || c.toNat = 11 || c.toNat = 12 || (28 ≤ c.toNat && c.toNat ≤ 30) ||
    c.toNat = 133 || c.toNat = 8232 || c.toNat = 8233

/-- `current` is the line read so far, reversed. -/
def splitlinesFrom (current : Str) : Str → List Str
  | [] => if current.isEmpty then [] else [current.reverse]
  | '\r' :: '\n' :: rest => current.reverse :: splitlinesFrom [] rest
  | c :: rest =>
    if isLineEnd c then current.reverse :: splitlinesFrom [] rest
    else splitlinesFrom (c :: current) rest

/-- `str.splitlines()` -/
def splitlines (s : Str) : List Str := splitlinesFrom [] s

/-- `sep.join(parts)` -/
def joinWith (sep : Str) (parts : List Str) : Str := sep.intercalate parts

/-- `str(n)` of a row id -/
def strOfId (n : Nat) : Str := Nat.toDigits 10 n

/-- `int(text)` on the numerals `strOfId` writes; any other text names no row. -/
def idOfStr (s : Str) : Option Nat :=
  if s ≠ [] ∧ s.all Char.isDigit then some (Nat.ofDigitChars 10 s 0) else none

/-- `datetime.min` and `datetime.max` on the wall clock. -/
def datetimeMin : Int := -62135596800000000
def datetimeMax : Int := 253402300799999999

theorem epoch_range : datetimeMin ≤ 0 ∧ 0 ≤ datetimeMax := by decide

/-- A `datetime`: its wall clock in microseconds, and the offset of its time
zone when it has one. -/
structure Datetime where
  clock : Int
  utcoffset : Option Int
  clock_range : datetimeMin ≤ clock ∧ clock ≤ datetimeMax := by first | exact epoch_range | decide
  deriving DecidableEq

/-- A code point of a Python string, which unlike a character may be a surrogate. -/
structure CodePoint where
  toNat : Nat
  inRange : toNat < 0x110000
  deriving DecidableEq

namespace CodePoint

theorem toNat_inj {c d : CodePoint} (same : c.toNat = d.toNat) : c = d := by
  cases c
  cases d
  exact CodePoint.mk.injEq .. ▸ same

def ofChar (c : Char) : CodePoint where
  toNat := c.toNat
  inRange := by
    have valid : c.toNat < 0xd800 ∨ 0xdfff < c.toNat ∧ c.toNat < 0x110000 := c.valid
    omega

def isHigh (c : CodePoint) : Bool := 0xd800 ≤ c.toNat && c.toNat ≤ 0xdbff

def isLow (c : CodePoint) : Bool := 0xdc00 ≤ c.toNat && c.toNat ≤ 0xdfff

def isSurrogate (c : CodePoint) : Bool := c.isHigh || c.isLow

theorem isSurrogate_iff {c : CodePoint} :
    c.isSurrogate = true ↔ 0xd800 ≤ c.toNat ∧ c.toNat ≤ 0xdfff := by
  simp only [isSurrogate, isHigh, isLow, Bool.or_eq_true, Bool.and_eq_true, decide_eq_true_eq]
  omega

theorem ofChar_isSurrogate (c : Char) : (ofChar c).isSurrogate = false := by
  have valid : c.toNat < 0xd800 ∨ 0xdfff < c.toNat ∧ c.toNat < 0x110000 := c.valid
  rw [Bool.eq_false_iff, ne_eq, isSurrogate_iff]
  change ¬ (0xd800 ≤ c.toNat ∧ c.toNat ≤ 0xdfff)
  omega

end CodePoint

/-- A string as `json.loads` makes it. -/
abbrev Text := List CodePoint

def textOf (s : Str) : Text := s.map CodePoint.ofChar

theorem textOf_injective : Function.Injective textOf :=
  List.map_injective_iff.mpr fun _ _ same => Char.toNat_inj.mp (CodePoint.mk.inj same)

/-- JSON values over the strings their reader makes; a number is the literal that
`json.dumps` writes for it. -/
inductive Json (σ : Type)
  | null
  | bool (b : Bool)
  | num (literal : Str)
  | str (s : σ)
  | arr (items : List (Json σ))
  | obj (members : List (σ × Json σ))

namespace Json
variable {σ : Type} [DecidableEq σ]

mutual

def decide : (a b : Json σ) → Decidable (a = b)
  | .null, b => by cases b <;> first | exact isTrue rfl | exact isFalse (by simp)
  | .bool x, .bool y => decidable_of_iff (x = y) (by simp)
  | .num x, .num y => decidable_of_iff (x = y) (by simp)
  | .str x, .str y => decidable_of_iff (x = y) (by simp)
  | .arr x, .arr y => match decideItems x y with
    | isTrue h => isTrue (by rw [h])
    | isFalse h => isFalse (by simpa using h)
  | .obj x, .obj y => match decideMembers x y with
    | isTrue h => isTrue (by rw [h])
    | isFalse h => isFalse (by simpa using h)
  | .bool _, .null | .bool _, .num _ | .bool _, .str _ | .bool _, .arr _ | .bool _, .obj _
  | .num _, .null | .num _, .bool _ | .num _, .str _ | .num _, .arr _ | .num _, .obj _
  | .str _, .null | .str _, .bool _ | .str _, .num _ | .str _, .arr _ | .str _, .obj _
  | .arr _, .null | .arr _, .bool _ | .arr _, .num _ | .arr _, .str _ | .arr _, .obj _
  | .obj _, .null | .obj _, .bool _ | .obj _, .num _ | .obj _, .str _ | .obj _, .arr _ =>
    isFalse (by simp)

def decideItems : (a b : List (Json σ)) → Decidable (a = b)
  | [], [] => isTrue rfl
  | [], _ :: _ | _ :: _, [] => isFalse (by simp)
  | x :: xs, y :: ys => match decide x y, decideItems xs ys with
    | isTrue h, isTrue h' => isTrue (by rw [h, h'])
    | isFalse h, _ => isFalse (by simp [h])
    | _, isFalse h => isFalse (by simp [h])

def decideMembers : (a b : List (σ × Json σ)) → Decidable (a = b)
  | [], [] => isTrue rfl
  | [], _ :: _ | _ :: _, [] => isFalse (by simp)
  | (k, x) :: xs, (l, y) :: ys =>
    match decEq k l, decide x y, decideMembers xs ys with
    | isTrue hk, isTrue h, isTrue h' => isTrue (by rw [hk, h, h'])
    | isFalse h, _, _ => isFalse (by simp [h])
    | _, isFalse h, _ => isFalse (by simp [h])
    | _, _, isFalse h => isFalse (by simp [h])

end

instance : DecidableEq (Json σ) := Json.decide

/-- What `json.dumps` writes for the numbers that JSON does not have. -/
def nonFinite : List Str := ["NaN".toList, "Infinity".toList, "-Infinity".toList]

omit [DecidableEq σ]

mutual

/-- `model_dump(mode="json")` of a value that has no type: a number that JSON does not
have becomes null. -/
def jsonMode : Json σ → Json σ
  | .num literal => if literal ∈ nonFinite then .null else .num literal
  | .arr items => .arr (jsonModeItems items)
  | .obj members => .obj (jsonModeMembers members)
  | .null => .null
  | .bool b => .bool b
  | .str s => .str s

def jsonModeItems : List (Json σ) → List (Json σ)
  | [] => []
  | item :: items => item.jsonMode :: jsonModeItems items

def jsonModeMembers : List (σ × Json σ) → List (σ × Json σ)
  | [] => []
  | (key, value) :: members => (key, value.jsonMode) :: jsonModeMembers members

end

end Json

theorem idOfStr_strOfId (n : Nat) : idOfStr (strOfId n) = some n := by
  have digits : (strOfId n).all Char.isDigit := by
    rw [List.all_eq_true]
    intro c hc
    exact Nat.isDigit_of_mem_toDigits (b := 10) (by decide) (by decide) hc
  rw [idOfStr, if_pos ⟨Nat.toDigits_ne_nil, digits⟩, strOfId, Nat.ofDigitChars_ten_toDigits]

/-- Only ASCII characters are letters, digits or spaces, and `lower` maps only
ASCII letters. The digest is the text itself. -/
@[reducible] def asciiPlatform : Platform where
  isAlnum := Char.isAlphanum
  isDecimal := Char.isDigit
  isSpace := asciiSpace
  lower := List.map Char.toLower
  sha256Hex := id
  isAlnum_ascii _ _ := rfl
  isDecimal_ascii _ _ := rfl
  isSpace_ascii _ _ := rfl
  lower_ascii _ _ := rfl

/-- The letters outside ASCII that `re.IGNORECASE` equates with i, s or k: dotless and
dotted i, long s, the Kelvin sign. -/
def foldedLetters : List Char := ['ı', 'İ', 'ſ', '\u212a']

/-- Unicode tables in which decimals and letters are alphanumeric and spaces are not. -/
class UnicodePlatform extends Platform where
  isAlnum_of_isDecimal : ∀ c, isDecimal c = true → isAlnum c = true
  isAlnum_of_isSpace : ∀ c, isSpace c = true → isAlnum c = false
  isAlnum_folded : ∀ c ∈ foldedLetters, isAlnum c = true
  isDecimal_folded : ∀ c ∈ foldedLetters, isDecimal c = false

/-- Letters and digits of ASCII, and the letters with an ASCII equivalent. -/
def isFoldedAlnum (c : Char) : Bool := c.isAlphanum || decide (c ∈ foldedLetters)

theorem isFoldedAlnum_ascii (c : Char) (ascii : IsAscii c) : isFoldedAlnum c = c.isAlphanum := by
  have outside : ∀ d ∈ foldedLetters, ¬ IsAscii d := by decide
  have other : c ∉ foldedLetters := fun folded => outside c folded ascii
  simp [isFoldedAlnum, other]

theorem isFoldedAlnum_of_asciiSpace (c : Char) (space : asciiSpace c = true) :
    isFoldedAlnum c = false := by
  have small : c.toNat ≤ 32 := by
    simp only [asciiSpace, Bool.or_eq_true, Bool.and_eq_true, decide_eq_true_eq] at space
    rcases space with (rfl | between) | between
    · decide
    · omega
    · omega
  have plain : ∀ n ≤ 32, isFoldedAlnum (Char.ofNat n) = false := by decide
  have here := plain c.toNat small
  rwa [Char.ofNat_toNat] at here

/-- `asciiPlatform` with the letters that have an ASCII equivalent. -/
@[reducible] def foldingPlatform : UnicodePlatform where
  toPlatform := { asciiPlatform with
    isAlnum := isFoldedAlnum
    isAlnum_ascii := isFoldedAlnum_ascii }
  isAlnum_of_isDecimal c decimal := by
    have digit : c.isDigit = true := decimal
    exact Bool.or_eq_true_iff.mpr (.inl (Bool.or_eq_true_iff.mpr (.inr digit)))
  isAlnum_of_isSpace := isFoldedAlnum_of_asciiSpace
  isAlnum_folded := by decide
  isDecimal_folded := by decide

end LogLens
