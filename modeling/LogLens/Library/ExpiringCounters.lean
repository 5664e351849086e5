import Mathlib.Data.Int.Order.Basic
import Mathlib.Logic.Function.Basic
import Mathlib.Order.Lattice

/-! Counters of a key-value server, each with an optional expiry. A command takes the
time it is run at; a counter whose expiry has come counts as absent. -/

namespace ExpiringCounters

structure Counter where
  value : Nat
  expiresAt : Option Int := none
  deriving DecidableEq

abbrev Store (κ : Type*) := κ → Option Counter

def Counter.live (now : Int) (c : Counter) : Bool := c.expiresAt.all fun expiry => now < expiry

namespace Store
variable {κ : Type*} (s : Store κ) (now : Int) (key : κ)

/-- The counter that a command at a time finds. -/
def read : Option Counter := (s key).filter (Counter.live now)

/-- GET -/
def get : Option Nat := (s.read now key).map Counter.value

variable [DecidableEq κ]

def put (c : Counter) : Store κ := Function.update s key (some c)

/-- INCR keeps the expiry, and starts an absent counter without one. -/
def incr : Nat × Store κ :=
  let c := (s.read now key).getD { value := 0 }
  (c.value + 1, s.put key { c with value := c.value + 1 })

/-- EXPIRE -/
def expire (lifetime : Int) : Store κ :=
  match s.read now key with
  | none => s
  | some c => s.put key { c with expiresAt := some (now + lifetime) }

/-- DEL -/
def delete : Store κ := Function.update s key none

end Store

section Reads
variable {κ : Type*} {s : Store κ} {now later : Int} {key other : κ} {c : Counter}

theorem read_some : s.read now key = some c ↔ s key = some c ∧ c.live now = true := by
  simp [Store.read, Option.filter_eq_some_iff]

theorem read_none : s.read now key = none ↔ ∀ c, s key = some c → c.live now = false := by
  simp [Store.read, Option.filter_eq_none_iff]

theorem live_iff : c.live now = true ↔ ∀ expiry, c.expiresAt = some expiry → now < expiry := by
  simp [Counter.live, Option.all_eq_true]

/-- A counter that is live was live before. -/
theorem live_of_le (order : now ≤ later) (live : c.live later = true) : c.live now = true :=
  live_iff.mpr fun expiry own => lt_of_le_of_lt order (live_iff.mp live expiry own)

/-- A counter that is absent stays so while no command touches it. -/
theorem read_none_later (order : now ≤ later) (absent : s.read now key = none) :
    s.read later key = none := by
  rw [read_none] at *
  intro c here
  exact Bool.eq_false_iff.mpr fun live =>
    Bool.false_ne_true ((absent c here).symm.trans (live_of_le order live))

variable [DecidableEq κ]

@[simp] theorem put_self (s : Store κ) (key : κ) (c : Counter) : s.put key c key = some c :=
  Function.update_self _ _ _

theorem put_other (different : other ≠ key) : s.put key c other = s other :=
  Function.update_of_ne different _ _

@[simp] theorem put_put (s : Store κ) (key : κ) (c d : Counter) :
    (s.put key c).put key d = s.put key d := Function.update_idem _ _ _

theorem read_put : (s.put key c).read now key = some c ↔ c.live now = true := by
  simp [read_some]

theorem incr_some (here : s.read now key = some c) :
    s.incr now key = (c.value + 1, s.put key { c with value := c.value + 1 }) := by
  simp [Store.incr, here]

theorem incr_none (absent : s.read now key = none) :
    s.incr now key = (1, s.put key { value := 1 }) := by
  simp [Store.incr, absent]

theorem incr_other (different : other ≠ key) : (s.incr now key).2 other = s other :=
  put_other different

theorem expire_some (here : s.read now key = some c) (lifetime : Int) :
    s.expire now key lifetime = s.put key { c with expiresAt := some (now + lifetime) } := by
  simp [Store.expire, here]

theorem expire_other (different : other ≠ key) (lifetime : Int) :
    s.expire now key lifetime other = s other := by
  unfold Store.expire
  cases s.read now key with
  | none => rfl
  | some c => exact put_other different

theorem delete_self : s.delete key key = none := Function.update_self _ _ _

theorem delete_other (different : other ≠ key) : s.delete key other = s other :=
  Function.update_of_ne different _ _

/-- What is left after DEL was there before. -/
theorem of_delete (here : s.delete key other = some c) : s other = some c := by
  by_cases same : other = key
  · rw [same, delete_self] at here
    cases here
  · rwa [delete_other same] at here

/-- What holds of the other counters holds of all exactly if it holds of the one put. -/
theorem put_all {P : Counter → Prop} (others : ∀ k d, s k = some d → P d) :
    (∀ k d, s.put key c k = some d → P d) ↔ P c := by
  constructor
  · intro all
    exact all key c (put_self s key c)
  · intro own k d here
    by_cases same : k = key
    · rw [same, put_self, Option.some.injEq] at here
      exact here ▸ own
    · rw [put_other same] at here
      exact others k d here

end Reads

end ExpiringCounters
