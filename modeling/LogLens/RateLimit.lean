import LogLens.Auth
import LogLens.Library.DelimitedJoin
import LogLens.Library.FixedWindow

/-! `RedisLoginRateLimiter` over the counters of Redis. A command raises `RedisError`
before or after it took effect; no method lets the error through. -/

namespace LogLens
open ExpiringCounters FixedWindow

/-- How a command ends: with its reply, or with `RedisError`. -/
inductive RedisReply
  | received
  /-- the command did not run -/
  | refused
  /-- the command ran -/
  | lost
  deriving DecidableEq

structure RedisLoginRateLimiter where
  maxAttempts : Int
  windowSeconds : Int
  keyPrefix : Str := "auth:login_attempts".toList

namespace RedisLoginRateLimiter
variable (limiter : RedisLoginRateLimiter)

def redisKey (key : Str) : Str := limiter.keyPrefix ++ ':' :: key

/-- `window_seconds` on the clock -/
def window : Int := limiter.windowSeconds * 1000000

def isAllowed (now : Timestamp) (key : Str) (reply : RedisReply) (store : Store Str) : Bool :=
  match reply with
  | .received =>
    match store.get now (limiter.redisKey key) with
    | none => true
    | some count => (count : Int) < limiter.maxAttempts
  | .refused | .lost => true

def addFailure (now : Timestamp) (key : Str) (incrReply expireReply : RedisReply)
    (store : Store Str) : Store Str :=
  let redisKey := limiter.redisKey key
  let counted := store.incr now redisKey
  match incrReply with
  | .refused => store
  | .lost => counted.2
  | .received =>
    if counted.1 = 1 then
      match expireReply with
      | .refused => counted.2
      | .received | .lost => counted.2.expire now redisKey limiter.window
    else counted.2

def clear (key : Str) (reply : RedisReply) (store : Store Str) : Store Str :=
  match reply with
  | .refused => store
  | .received | .lost => store.delete (limiter.redisKey key)

/-- The limiter while Redis is available. -/
def available : LoginRateLimiter (Store Str) where
  isAllowed now key store := (limiter.isAllowed now key .received store, store)
  addFailure now key store := limiter.addFailure now key .received .received store
  clear _ key store := limiter.clear key .received store

end RedisLoginRateLimiter

/-- The host of a request without client is `unknown`. -/
def buildLoginRateLimitKey [Platform] (clientHost : Option Str) (email : Str) : Str :=
  clientHost.getD "unknown".toList ++ ':' :: Platform.lower (strip email)

namespace RedisLoginRateLimiter
variable {limiter : RedisLoginRateLimiter} {store : Store Str} {now : Timestamp} {key other : Str}
  {c : Counter}

theorem redisKey_injective : Function.Injective limiter.redisKey := fun key other same => by
  simpa [redisKey] using same

theorem isAllowed_iff : limiter.isAllowed now key .received store = true ↔
    ∀ c, store.read now (limiter.redisKey key) = some c →
      (c.value : Int) < limiter.maxAttempts := by
  simp only [isAllowed, Store.get]
  cases store.read now (limiter.redisKey key) with
  | none => simp
  | some c => simp

/-- A failure that finds a counter adds to it and leaves its expiry. -/
theorem addFailure_some (here : store.read now (limiter.redisKey key) = some c)
    (counted : c.value ≠ 0) {incrReply : RedisReply} (ran : incrReply ≠ .refused)
    (expireReply : RedisReply) :
    limiter.addFailure now key incrReply expireReply store =
      store.put (limiter.redisKey key) { c with value := c.value + 1 } := by
  have more : c.value + 1 ≠ 1 := by omega
  cases incrReply with
  | refused => exact absurd rfl ran
  | lost => simp [addFailure, incr_some here]
  | received => simp [addFailure, incr_some here, counted]

theorem addFailure_received {expireReply : RedisReply} (ran : expireReply ≠ .refused) :
    limiter.addFailure now key .received expireReply store =
      hit store now (limiter.redisKey key) limiter.window := by
  cases expireReply with
  | refused => exact absurd rfl ran
  | received | lost => rfl

/-- Without the expiry of the first failure, its counter stays. -/
theorem addFailure_unexpired (absent : store.read now (limiter.redisKey key) = none)
    {incrReply expireReply : RedisReply} (ran : incrReply ≠ .refused)
    (unset : incrReply = .lost ∨ expireReply = .refused) :
    limiter.addFailure now key incrReply expireReply store =
      store.put (limiter.redisKey key) { value := 1 } := by
  cases incrReply with
  | refused => exact absurd rfl ran
  | lost => simp only [addFailure, incr_none absent]
  | received =>
    cases unset with
    | inl same => cases same
    | inr unset => simp only [addFailure, incr_none absent, unset, if_true]

end RedisLoginRateLimiter

/-- One failure refuses the next attempt within a minute. -/
def strictLimiter : RedisLoginRateLimiter where
  maxAttempts := 1
  windowSeconds := 60

end LogLens
