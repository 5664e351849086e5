import LogLens.RateLimit
import LogLens.Library.LabelledMachine

/-! Every login counter carries an expiry within the window, so that a key is allowed
again: exactly in the runs where a failure that opens a counter hears of its INCR and
its EXPIRE runs. -/

namespace LogLens
open ExpiringCounters LabelledMachine

structure LimiterRun where
  store : Store Str := fun _ => none
  /-- the time of the last call -/
  now : Timestamp

inductive LimiterCall
  | isAllowed (key : Str) (reply : RedisReply)
  | addFailure (key : Str) (incrReply expireReply : RedisReply)
  | clear (key : Str) (reply : RedisReply)

def LimiterCall.apply (limiter : RedisLoginRateLimiter) (now : Timestamp) (store : Store Str) :
    LimiterCall → Store Str
  | .isAllowed _ _ => store
  | .addFailure key incrReply expireReply =>
    limiter.addFailure now key incrReply expireReply store
  | .clear key reply => limiter.clear key reply store

/-- A call at a time that is not before the one of the last call. -/
def limiterMachine (limiter : RedisLoginRateLimiter) :
    Machine LimiterRun (Timestamp × LimiterCall) where
  step s op := if s.now ≤ op.1 then some ⟨op.2.apply limiter op.1 s.store, op.1⟩ else none

/-- Every counter expires within the window, and a key is allowed once the window is over. -/
def NoPermanentLockout (limiter : RedisLoginRateLimiter) (s : LimiterRun) : Prop :=
  (∀ redisKey c, s.store redisKey = some c →
    ∃ expiry, c.expiresAt = some expiry ∧ expiry ≤ s.now + limiter.window) ∧
  ∀ key later, s.now + limiter.window ≤ later →
    limiter.isAllowed later key .received s.store = true

/-- A failure that opens a counter hears of its INCR, and its EXPIRE runs. -/
def SetsExpiry (limiter : RedisLoginRateLimiter) (s : LimiterRun) :
    Timestamp × LimiterCall → Prop
  | (now, .addFailure key incrReply expireReply) =>
    incrReply ≠ .refused → s.store.read now (limiter.redisKey key) = none →
      incrReply = .received ∧ expireReply ≠ .refused
  | _ => True

section Steps
variable {limiter : RedisLoginRateLimiter} {s t : LimiterRun}

/-- A counter that expires within the window does not refuse a key after it. -/
theorem noPermanentLockout_iff : NoPermanentLockout limiter s ↔
    ∀ redisKey c, s.store redisKey = some c →
      ∃ expiry, c.expiresAt = some expiry ∧ expiry ≤ s.now + limiter.window := by
  refine ⟨And.left, fun expire => ⟨expire, fun key later ended => ?_⟩⟩
  rw [RedisLoginRateLimiter.isAllowed_iff]
  intro c here
  obtain ⟨stored, live⟩ := read_some.mp here
  obtain ⟨expiry, own, bound⟩ := expire _ c stored
  have after : later < expiry := live_iff.mp live expiry own
  exact absurd (bound.trans ended) (not_le_of_gt after)

/-- Stored counters count. -/
def CountersPositive (s : LimiterRun) : Prop :=
  ∀ redisKey c, s.store redisKey = some c → c.value ≠ 0

inductive FailureEffect (limiter : RedisLoginRateLimiter) (store : Store Str) (now : Timestamp)
    (key : Str) (incrReply expireReply : RedisReply) : Store Str → Prop
  | refused : incrReply = .refused →
    FailureEffect limiter store now key incrReply expireReply store
  | counts {c : Counter} : incrReply ≠ .refused → store.read now (limiter.redisKey key) = some c →
    FailureEffect limiter store now key incrReply expireReply
      (store.put (limiter.redisKey key) { c with value := c.value + 1 })
  | opens : incrReply = .received → expireReply ≠ .refused →
    store.read now (limiter.redisKey key) = none →
    FailureEffect limiter store now key incrReply expireReply
      (store.put (limiter.redisKey key) { value := 1, expiresAt := some (now + limiter.window) })
  | leaves : incrReply ≠ .refused → (incrReply = .lost ∨ expireReply = .refused) →
    store.read now (limiter.redisKey key) = none →
    FailureEffect limiter store now key incrReply expireReply
      (store.put (limiter.redisKey key) { value := 1 })

variable (limiter) in
theorem failure_effect {store : Store Str} (positive : ∀ k c, store k = some c → c.value ≠ 0)
    (now : Timestamp) (key : Str) (incrReply expireReply : RedisReply) :
    FailureEffect limiter store now key incrReply expireReply
      (limiter.addFailure now key incrReply expireReply store) := by
  by_cases refused : incrReply = .refused
  · rw [refused]
    exact .refused rfl
  cases here : store.read now (limiter.redisKey key) with
  | some c =>
    have counted := positive _ c (read_some.mp here).1
    rw [RedisLoginRateLimiter.addFailure_some here counted refused]
    exact .counts refused here
  | none =>
    by_cases unset : incrReply = .lost ∨ expireReply = .refused
    · rw [RedisLoginRateLimiter.addFailure_unexpired here refused unset]
      exact .leaves refused unset here
    · rw [not_or] at unset
      have received : incrReply = .received := by
        cases incrReply with
        | received => rfl
        | refused => exact absurd rfl refused
        | lost => exact absurd rfl unset.1
      rw [received, RedisLoginRateLimiter.addFailure_received unset.2, FixedWindow.hit_none here]
      exact .opens rfl unset.2 here

theorem step_limiter {op : Timestamp × LimiterCall} (moved : (limiterMachine limiter).step s op =
    some t) : s.now ≤ op.1 ∧ t = ⟨op.2.apply limiter op.1 s.store, op.1⟩ := by
  simp only [limiterMachine] at moved
  split at moved
  · rename_i later
    exact ⟨later, (Option.some.inj moved).symm⟩
  · cases moved

theorem countersPositive_step {op : Timestamp × LimiterCall} (positive : CountersPositive s)
    (moved : (limiterMachine limiter).step s op = some t) : CountersPositive t := by
  obtain ⟨-, rfl⟩ := step_limiter moved
  obtain ⟨now, call⟩ := op
  cases call with
  | isAllowed key reply => exact positive
  | addFailure key incrReply expireReply =>
    have effect := failure_effect limiter positive now key incrReply expireReply
    simp only [CountersPositive, LimiterCall.apply]
    generalize limiter.addFailure now key incrReply expireReply s.store = store at effect ⊢
    cases effect with
    | refused => exact positive
    | counts | opens | leaves => exact (put_all positive).mpr (Nat.succ_ne_zero _)
  | clear key reply =>
    cases reply with
    | refused => exact positive
    | received | lost => exact fun redisKey c here => positive redisKey c (of_delete here)

/-- A call keeps the counters expiring exactly if the counter it opens, if any, is to expire. -/
theorem noPermanentLockout_step {op : Timestamp × LimiterCall} (positive : CountersPositive s)
    (holds : NoPermanentLockout limiter s)
    (moved : (limiterMachine limiter).step s op = some t) :
    NoPermanentLockout limiter t ↔ SetsExpiry limiter s op := by
  obtain ⟨later, rfl⟩ := step_limiter moved
  obtain ⟨now, call⟩ := op
  rw [noPermanentLockout_iff] at holds ⊢
  -- the counters of before expire within the later window
  have before : ∀ redisKey c, s.store redisKey = some c →
      ∃ expiry, c.expiresAt = some expiry ∧ expiry ≤ now + limiter.window := by
    intro redisKey c here
    obtain ⟨expiry, own, bound⟩ := holds redisKey c here
    exact ⟨expiry, own, bound.trans (Int.add_le_add_right later _)⟩
  cases call with
  | isAllowed key reply => exact iff_of_true before trivial
  | addFailure key incrReply expireReply =>
    have effect := failure_effect limiter positive now key incrReply expireReply
    simp only [LimiterCall.apply, SetsExpiry]
    generalize limiter.addFailure now key incrReply expireReply s.store = store at effect ⊢
    cases effect with
    | refused refused => exact iff_of_true before fun ran => absurd refused ran
    | counts ran here =>
      obtain ⟨stored, -⟩ := read_some.mp here
      have kept := before _ _ stored
      refine iff_of_true ((put_all before).mpr kept) fun _ absent => ?_
      rw [here] at absent
      cases absent
    | opens received set absent =>
      exact iff_of_true ((put_all before).mpr ⟨_, rfl, le_refl _⟩) fun _ _ => ⟨received, set⟩
    | leaves ran unset absent =>
      refine iff_of_false (fun expire => ?_) fun sets => ?_
      · obtain ⟨expiry, none, -⟩ := (put_all before).mp expire
        cases none
      · obtain ⟨received, set⟩ := sets ran absent
        cases unset with
        | inl lost =>
          rw [received] at lost
          cases lost
        | inr refused => exact set refused
  | clear key reply =>
    refine iff_of_true (fun redisKey c here => ?_) trivial
    cases reply with
    | refused => exact before redisKey c here
    | received | lost => exact before redisKey c (of_delete here)

/-- No key is locked out for good in a run exactly if every failure that opens a counter hears
of its INCR, and its EXPIRE runs. -/
theorem no_permanent_lockout_iff (limiter : RedisLoginRateLimiter) (start : Timestamp)
    (ops : List (Timestamp × LimiterCall)) (s : LimiterRun)
    (ran : (limiterMachine limiter).run { now := start } ops = some s) :
    (∀ before after t, ops = before ++ after →
      (limiterMachine limiter).run { now := start } before = some t →
        NoPermanentLockout limiter t) ↔
      Meets (limiterMachine limiter) (SetsExpiry limiter) { now := start } ops := by
  have nothing : ∀ redisKey c, ({ now := start } : LimiterRun).store redisKey ≠ some c := by simp
  refine prefixes_iff_meets (I := CountersPositive)
    (fun s t op positive moved => countersPositive_step positive moved)
    (fun s t op positive holds moved => noPermanentLockout_step positive holds moved) ?_ ?_ ran
  · exact fun redisKey c here => absurd here (nothing redisKey c)
  · rw [noPermanentLockout_iff]
    exact fun redisKey c here => absurd here (nothing redisKey c)

end Steps

section Sample

instance (limiter : RedisLoginRateLimiter) (s : LimiterRun) :
    (op : Timestamp × LimiterCall) → Decidable (SetsExpiry limiter s op)
  | (now, .addFailure key incrReply expireReply) => inferInstanceAs (Decidable
      (incrReply ≠ .refused → s.store.read now (limiter.redisKey key) = none →
        incrReply = .received ∧ expireReply ≠ .refused))
  | (_, .isAllowed _ _) | (_, .clear _ _) => isTrue trivial

/-- `login_rate_limit_attempts` and `login_rate_limit_window_seconds` as in `Settings` -/
def defaultLimiter : RedisLoginRateLimiter where
  maxAttempts := 5
  windowSeconds := 60

/-- Two failures, a call whose GET fails and a failed DEL. -/
def shortOutage : List (Timestamp × LimiterCall) :=
  [(0, .addFailure ['k'] .received .received), (1, .addFailure ['k'] .lost .received),
    (2, .isAllowed ['k'] .refused), (3, .clear ['k'] .refused)]

theorem no_permanent_lockout_shortOutage :
    ∃ s, (limiterMachine defaultLimiter).run { now := 0 } shortOutage = some s ∧
      ∀ before after t, shortOutage = before ++ after →
        (limiterMachine defaultLimiter).run { now := 0 } before = some t →
          NoPermanentLockout defaultLimiter t := by
  obtain ⟨s, ran⟩ : ∃ s, (limiterMachine defaultLimiter).run { now := 0 } shortOutage = some s :=
    ⟨_, rfl⟩
  exact ⟨s, ran, (no_permanent_lockout_iff defaultLimiter 0 shortOutage s ran).mpr (by decide)⟩

/-- The EXPIRE of the first of five failures fails. -/
def failedExpire : List (Timestamp × LimiterCall) :=
  [(0, .addFailure ['k'] .received .refused), (1, .addFailure ['k'] .received .received),
    (2, .addFailure ['k'] .received .received), (3, .addFailure ['k'] .received .received),
    (4, .addFailure ['k'] .received .received)]

/-- The key is refused at all times to come. -/
theorem no_permanent_lockout_fails :
    ∃ s, (limiterMachine defaultLimiter).run { now := 0 } failedExpire = some s ∧
      ¬ NoPermanentLockout defaultLimiter s ∧
      ∀ later, defaultLimiter.isAllowed later ['k'] .received s.store = false := by
  obtain ⟨s, ran⟩ : ∃ s, (limiterMachine defaultLimiter).run { now := 0 } failedExpire = some s :=
    ⟨_, rfl⟩
  have stored : ((limiterMachine defaultLimiter).run { now := 0 } failedExpire).map
      (fun s => s.store (defaultLimiter.redisKey ['k'])) = some (some { value := 5 }) := by decide
  rw [ran, Option.map_some, Option.some.injEq] at stored
  refine ⟨s, ran, fun none => ?_, fun later => ?_⟩
  · obtain ⟨expiry, own, -⟩ := none.1 _ _ stored
    cases own
  · have found : s.store.read later (defaultLimiter.redisKey ['k']) = some { value := 5 } :=
      read_some.mpr ⟨stored, rfl⟩
    refine Bool.eq_false_iff.mpr fun allowed => ?_
    have below := RedisLoginRateLimiter.isAllowed_iff.mp allowed _ found
    exact absurd below (by decide)

end Sample

end LogLens
