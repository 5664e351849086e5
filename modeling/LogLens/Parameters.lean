import LogLens.Errors
import LogLens.Models
import Mathlib.Algebra.Group.Nat.Defs
import Mathlib.Algebra.Ring.Int.Defs

/-! The parameters of statements: what Postgres and its driver take of a value for the
type it is bound to. A statement with one that they refuse raises, and writes nothing. -/

namespace LogLens

/-- `text` and `varchar` hold no U+0000. -/
def NulFree (s : Str) : Prop := '\x00' ∉ s

instance (s : Str) : Decidable (NulFree s) := inferInstanceAs (Decidable ('\x00' ∉ s))

/-- `varchar(n)` -/
def FitsVarchar (n : Nat) (s : Str) : Prop := NulFree s ∧ s.length ≤ n

instance (n : Nat) (s : Str) : Decidable (FitsVarchar n s) := inferInstanceAs (Decidable (_ ∧ _))

/-- The range of `datetime`, within the one of `timestamptz`. -/
def InDatetimeRange (t : Timestamp) : Prop := datetimeMin ≤ t ∧ t ≤ datetimeMax

instance (t : Timestamp) : Decidable (InDatetimeRange t) := inferInstanceAs (Decidable (_ ∧ _))

/-- `jsonb` joins a high surrogate to the low one behind it, and takes no other. -/
def surrogatesPaired : Text → Bool
  | [] => true
  | [c] => !c.isSurrogate
  | c :: d :: rest =>
    if c.isHigh then d.isLow && surrogatesPaired rest
    else !c.isLow && surrogatesPaired (d :: rest)

/-- A string of a `jsonb` value. -/
def Text.storable (s : Text) : Bool := s.all (fun c => c.toNat ≠ 0) && surrogatesPaired s

example : Text.storable [⟨0xd83d, by decide⟩, ⟨0xde00, by decide⟩] = true := by decide

example : Text.storable [⟨0xd800, by decide⟩] = false := by decide

namespace Json
mutual

def storable : Json Text → Bool
  | .null | .bool _ => true
  | .num literal => literal ∉ nonFinite
  | .str s => Text.storable s
  | .arr items => storableItems items
  | .obj members => storableMembers members

def storableItems : List (Json Text) → Bool
  | [] => true
  | item :: rest => item.storable && storableItems rest

def storableMembers : List (Text × Json Text) → Bool
  | [] => true
  | (name, value) :: rest => Text.storable name && value.storable && storableMembers rest

end
end Json

/-- A value with the type it is bound to. -/
inductive Parameter
  | text (s : Str)
  | integer (n : Int)
  | bigint (n : Int)
  | timestamptz (t : Timestamp)

/-- Two's complement in a number of bits and the sign. -/
def FitsBits (bits : Nat) : Int → Prop
  | .ofNat n | .negSucc n => n < 2 ^ bits

instance (bits : Nat) : (n : Int) → Decidable (FitsBits bits n)
  | .ofNat n | .negSucc n => inferInstanceAs (Decidable (n < 2 ^ bits))

def Parameter.Fits : Parameter → Prop
  | .text s => NulFree s
  | .integer n => FitsBits 31 n
  | .bigint n => FitsBits 63 n
  | .timestamptz t => InDatetimeRange t

instance : (p : Parameter) → Decidable p.Fits
  | .text s => inferInstanceAs (Decidable (NulFree s))
  | .integer n => inferInstanceAs (Decidable (FitsBits 31 n))
  | .bigint n => inferInstanceAs (Decidable (FitsBits 63 n))
  | .timestamptz t => inferInstanceAs (Decidable (InDatetimeRange t))

theorem fitsBits_iff (bits : Nat) (n : Int) : FitsBits bits n ↔ -2 ^ bits ≤ n ∧ n < 2 ^ bits := by
  have power : ((2 ^ bits : Nat) : Int) = 2 ^ bits := Int.natCast_pow 2 bits
  cases n with
  | ofNat n =>
    change n < 2 ^ bits ↔ _
    rw [← power, Int.ofNat_eq_natCast]
    omega
  | negSucc n =>
    change n < 2 ^ bits ↔ _
    rw [← power]
    omega

/-- The most arguments that the driver takes. -/
def maxQueryArguments : Nat := 32767

/-- The database executes a statement with the parameters. -/
def Bindable (parameters : List Parameter) : Prop :=
  parameters.length ≤ maxQueryArguments ∧ ∀ p ∈ parameters, p.Fits

instance (parameters : List Parameter) : Decidable (Bindable parameters) :=
  inferInstanceAs (Decidable (_ ∧ _))

theorem bindable_bigint (n : Nat) : Bindable [.bigint n] ↔ n < 2 ^ 63 := by
  simp only [Bindable, maxQueryArguments, List.length_singleton, List.forall_mem_singleton]
  exact and_iff_right (by decide)

theorem bindable_append_bigint {parameters : List Parameter}
    (few : parameters.length + 2 ≤ maxQueryArguments) {m : Nat} (fits : m < 2 ^ 63) (n : Nat) :
    Bindable (parameters ++ [.bigint m, .bigint n]) ↔ (∀ p ∈ parameters, p.Fits) ∧ n < 2 ^ 63 := by
  have few' : (parameters ++ [Parameter.bigint m, Parameter.bigint n]).length ≤
      maxQueryArguments := by
    rwa [List.length_append]
  rw [Bindable, and_iff_right few', List.forall_mem_append, List.forall_mem_cons,
    List.forall_mem_singleton]
  exact and_congr_right fun _ => and_iff_right fits

/-- `sqlalchemy.exc.DBAPIError` -/
def dbapiError : Raised := .other "invalid input for query argument".toList

theorem dbapiError_ne_integrityError : dbapiError ≠ integrityError := by decide

/-- What a statement with parameters gives. -/
def execute {α : Type} (parameters : List Parameter) (result : α) : Except Raised α :=
  if Bindable parameters then .ok result else .error dbapiError

theorem execute_bind_ok {α β : Type} {parameters : List Parameter} {result : α}
    {next : α → Except Raised β} {answer : β} :
    (execute parameters result >>= next) = .ok answer ↔
      Bindable parameters ∧ next result = .ok answer := by
  by_cases bindable : Bindable parameters
  · rw [execute, if_pos bindable, and_iff_right bindable]
    rfl
  · rw [execute, if_neg bindable]
    exact iff_of_false nofun fun answered => bindable answered.1

end LogLens
