import LogLens.Library.ExpiringCounters
import Mathlib.Algebra.Order.Ring.Int
import Mathlib.Data.List.Basic

/-! Counting in fixed windows. The first hit on a key opens a window, which closes after
a fixed time; hits in it are counted, and a reset ends it. A counter that is counted up at
every hit, given its expiry by the first one and deleted at a reset holds that count. -/

namespace FixedWindow
open ExpiringCounters

inductive Event
  | hit (time : Int)
  | reset
  deriving DecidableEq

/-- The start of the last window; the newest event is the first. -/
def opened (window : Int) : List Event → Option Int
  | [] => none
  | .reset :: _ => none
  | .hit time :: earlier =>
    match opened window earlier with
    | none => some time
    | some start => if time < start + window then some start else some time

/-- The times of the hits since the last reset. -/
def recent : List Event → List Int
  | [] => []
  | .reset :: _ => []
  | .hit time :: earlier => time :: recent earlier

/-- The hits since a time and since the last reset. -/
def hitsSince (start : Int) (events : List Event) : Nat := (recent events).countP (start ≤ ·)

/-- Hits are listed in the order of their times, up to the present. -/
def Ordered (now : Int) (events : List Event) : Prop :=
  (now :: recent events).Pairwise fun later earlier => earlier ≤ later

section Windows
variable {window now later time start : Int} {events : List Event}

theorem ordered_hit (ordered : Ordered now events) (order : now ≤ time) :
    Ordered time (.hit time :: events) := by
  unfold Ordered at *
  rw [List.pairwise_cons] at ordered
  have bound : ∀ old ∈ recent events, old ≤ time := fun old ho => (ordered.1 old ho).trans order
  simp only [recent, List.pairwise_cons, List.mem_cons, forall_eq_or_imp, le_refl, true_and]
  exact ⟨bound, bound, ordered.2⟩

theorem ordered_later (ordered : Ordered now events) (order : now ≤ later) :
    Ordered later events := by
  unfold Ordered at *
  rw [List.pairwise_cons] at *
  exact ⟨fun old ho => (ordered.1 old ho).trans order, ordered.2⟩

theorem ordered_reset (now : Int) (events : List Event) : Ordered now (.reset :: events) := by
  simp [Ordered, recent]

theorem recent_of_opened_none (closed : opened window events = none) : recent events = [] := by
  cases events with
  | nil => rfl
  | cons event earlier =>
    cases event with
    | reset => rfl
    | hit time =>
      simp only [opened] at closed
      split at closed
      · cases closed
      · split at closed <;> cases closed

/-- A window is opened by a hit since the last reset. -/
theorem opened_mem (started : opened window events = some start) : start ∈ recent events := by
  induction events with
  | nil => cases started
  | cons event earlier ih =>
    cases event with
    | reset => cases started
    | hit time =>
      simp only [opened] at started
      simp only [recent, List.mem_cons]
      cases before : opened window earlier with
      | none =>
        rw [before] at started
        simp only [Option.some.injEq] at started
        exact .inl started.symm
      | some first =>
        rw [before] at started ih
        simp only at started
        split at started
        · exact .inr (ih started)
        · exact .inl (Option.some.inj started).symm

/-- All hits since the last reset come before the last window closes. -/
theorem recent_lt (lasts : 0 < window) (ordered : Ordered now events)
    (started : opened window events = some start) :
    ∀ time ∈ recent events, time < start + window := by
  induction events generalizing start now with
  | nil => cases started
  | cons event earlier ih =>
    cases event with
    | reset => cases started
    | hit time =>
      have sorted : Ordered time earlier := (List.pairwise_cons.mp ordered).2
      have bound : ∀ old ∈ recent earlier, old ≤ time := (List.pairwise_cons.mp sorted).1
      have least : ∀ old ∈ time :: recent earlier, old < time + window := by
        intro old ho
        have before : old ≤ time := by
          cases List.mem_cons.mp ho with
          | inl same => exact le_of_eq same
          | inr older => exact bound old older
        omega
      simp only [opened] at started
      cases before : opened window earlier with
      | none =>
        rw [before] at started
        exact Option.some.inj started ▸ least
      | some first =>
        rw [before] at started
        simp only at started
        split at started
        · rename_i inside
          rw [← Option.some.inj started]
          intro old ho
          cases List.mem_cons.mp ho with
          | inl same => exact same ▸ inside
          | inr older => exact ih sorted before old older
        · exact Option.some.inj started ▸ least

theorem hitsSince_pos (started : opened window events = some start) :
    1 ≤ hitsSince start events :=
  List.countP_pos_iff.mpr ⟨start, opened_mem started, by simp⟩

/-- A hit in the window is counted. -/
theorem hitsSince_inside (order : start ≤ time) :
    hitsSince start (.hit time :: events) = hitsSince start events + 1 := by
  simp [hitsSince, recent, order]

/-- A hit that opens a window is the first one in it. -/
theorem hitsSince_open (older : ∀ old ∈ recent events, old < time) :
    hitsSince time (.hit time :: events) = 1 := by
  have none : (recent events).countP (time ≤ ·) = 0 :=
    List.countP_eq_zero.mpr fun old ho => by simpa using older old ho
  simp [hitsSince, recent, none]

end Windows

section Counters
variable {κ : Type*} [DecidableEq κ] (s : Store κ) (now : Int) (key : κ) (window : Int)

/-- INCR, and EXPIRE where the counter is new. -/
def hit : Store κ :=
  let counted := s.incr now key
  if counted.1 = 1 then counted.2.expire now key window else counted.2

variable {s now key window} {later : Int} {c : Counter} {other : κ} {events : List Event}

theorem hit_some (here : s.read now key = some c) (counted : c.value ≠ 0) :
    hit s now key window = s.put key { c with value := c.value + 1 } := by
  simp [hit, incr_some here, counted]

theorem hit_none (absent : s.read now key = none) :
    hit s now key window = s.put key { value := 1, expiresAt := some (now + window) } := by
  have fresh : (s.put key { value := 1 }).read now key = some { value := 1 } :=
    read_put.mpr (by simp [Counter.live])
  simp [hit, incr_none absent, expire_some fresh]

theorem hit_other (different : other ≠ key) : hit s now key window other = s other := by
  simp only [hit]
  split
  · exact (expire_other different _).trans (incr_other different)
  · exact incr_other different

variable (window) in
/-- From a time on, the counter of a key reads as the hits in its open window. -/
def Follows (now : Int) (events : List Event) (c : Option Counter) : Prop :=
  ∀ later, now ≤ later → c.filter (Counter.live later) =
    ((opened window events).filter fun start => later < start + window).map fun start =>
      { value := hitsSince start events, expiresAt := some (start + window) }

omit [DecidableEq κ] in
theorem follows_later (follows : Follows window now events (s key)) (order : now ≤ later) :
    Follows window later events (s key) := fun time after => follows time (order.trans after)

theorem follows_nil : Follows window now [] none := fun _ _ => rfl

theorem follows_reset : Follows window now (.reset :: events) none := fun _ _ => rfl

/-- The counter of the open window; after its close any value will do. -/
theorem follows_some {start : Int} {value : Nat} (started : opened window events = some start)
    (count : now < start + window → value = hitsSince start events) :
    Follows window now events (some { value := value, expiresAt := some (start + window) }) := by
  intro later after
  rw [started]
  by_cases inside : later < start + window
  · simp [Option.filter, Counter.live, inside, count (lt_of_le_of_lt after inside)]
  · simp [Option.filter, Counter.live, inside]

theorem follows_hit (ordered : Ordered now events) (follows : Follows window now events (s key))
    {time : Int} (order : now ≤ time) :
    Follows window time (.hit time :: events) (hit s time key window key) := by
  have found : s.read time key = _ := follows time order
  cases before : opened window events with
  | none =>
    have absent : s.read time key = none := by simp [found, before]
    rw [hit_none absent, put_self]
    refine follows_some (by simp [opened, before]) fun _ => (hitsSince_open ?_).symm
    simp [recent_of_opened_none before]
  | some start =>
    have past : start ≤ time :=
      ((List.pairwise_cons.mp ordered).1 start (opened_mem before)).trans order
    by_cases inside : time < start + window
    · have here : s.read time key =
          some { value := hitsSince start events, expiresAt := some (start + window) } := by
        simp [found, before, inside]
      have counted : hitsSince start events ≠ 0 := Nat.ne_of_gt (hitsSince_pos before)
      rw [hit_some here counted, put_self]
      exact follows_some (by simp [opened, before, inside]) fun _ => (hitsSince_inside past).symm
    · have absent : s.read time key = none := by simpa [found, before] using inside
      rw [hit_none absent, put_self]
      refine follows_some (by simp [opened, before, inside]) fun ends => (hitsSince_open ?_).symm
      -- hits of the window before came before its close
      intro old ho
      have closed := recent_lt (by omega) ordered before old ho
      omega

end Counters

end FixedWindow
