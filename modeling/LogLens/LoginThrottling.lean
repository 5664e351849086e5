import LogLens.RateLimit
import LogLens.RefreshHistory

/-! Login attempts, one at a time: an attempt is refused exactly if enough attempts of its
client host and email failed since the later of their last login and the start of their
open window. -/

namespace LogLens
open ExpiringCounters FixedWindow LabelledMachine

structure LoginAttempt where
  clientHost : Option Str
  payload : LoginRequest
  readings : Readings
  uuids : Uuids

/-- An attempt with its answer. -/
structure LoginRecord (τ : Type) where
  attempt : LoginAttempt
  answer : Except Raised (TokenResponse τ)

structure ThrottleRun (τ : Type) where
  tables : AuthTables
  store : Store Str := fun _ => none
  /-- the last reading of the clock -/
  now : Timestamp
  /-- the attempts, the last one first -/
  history : List (LoginRecord τ) := []

inductive ThrottleOp
  | login (attempt : LoginAttempt)
  /-- other requests, on any of the tables -/
  | others (tables : AuthTables)

section Machine
variable [Platform] {τ : Type} [TokenLibrary τ] (settings : Settings)
  (limiter : RedisLoginRateLimiter)

/-- The client host and the stripped, lower-cased email -/
def LoginAttempt.pair (attempt : LoginAttempt) : Str × Str :=
  (attempt.clientHost.getD "unknown".toList, Platform.lower (strip attempt.payload.email))

/-- The call of the endpoint -/
def ThrottleRun.login (s : ThrottleRun τ) (attempt : LoginAttempt) :
    Except Raised (TokenResponse τ) × AuthTables × Store Str :=
  loginUser settings limiter.available attempt.payload
    (buildLoginRateLimitKey attempt.clientHost attempt.payload.email) attempt.readings
    attempt.uuids s.tables s.store

def throttleMachine : Machine (ThrottleRun τ) ThrottleOp where
  step s
    | .login attempt =>
      let done := s.login settings limiter attempt
      some
        { tables := done.2.1
          store := done.2.2
          now := attempt.readings.finish
          history := ⟨attempt, done.1⟩ :: s.history }
    | .others tables => some { s with tables := tables }

/-- No attempt yet, and no counter. -/
def ThrottleRun.Initial (s : ThrottleRun τ) : Prop := s.store = (fun _ => none) ∧ s.history = []

/-- The clock does not run backwards, `uuid4` is fresh, and a validated email has no colon. -/
def ThrottleRun.Assumed (s : ThrottleRun τ) : ThrottleOp → Prop
  | .login attempt =>
    s.now ≤ attempt.readings.start ∧
      s.tables.refreshTokens (hashRefreshTokenIdentifier attempt.uuids.jti.text) = none ∧
      ':' ∉ attempt.pair.2
  | .others _ => True

/-- What an attempt is to a pair: a recorded failure, a login, or nothing. -/
def LoginRecord.event (pair : Str × Str) (r : LoginRecord τ) : Option Event :=
  if r.attempt.pair = pair then
    match r.answer with
    | .ok _ => some .reset
    | .error e =>
      if e = .app authenticationError then some (.hit r.attempt.readings.check) else none
  else none

/-- The failures and logins of a pair -/
def pairEvents (pair : Str × Str) (history : List (LoginRecord τ)) : List Event :=
  history.filterMap (LoginRecord.event pair)

/-- A window of the pair is open, and the failures in it since the last login are at least one
and at least `max_attempts`. -/
def Throttled (pair : Str × Str) (now : Timestamp) (history : List (LoginRecord τ)) : Prop :=
  ∃ start, opened limiter.window (pairEvents pair history) = some start ∧
    now < start + limiter.window ∧ 1 ≤ hitsSince start (pairEvents pair history) ∧
    limiter.maxAttempts ≤ hitsSince start (pairEvents pair history)

end Machine

section Attempts
variable [Platform] {τ : Type} [TokenLibrary τ] {settings : Settings}
  {limiter : RedisLoginRateLimiter} {s t : ThrottleRun τ}

/-- The Redis key of a pair -/
def pairKey (limiter : RedisLoginRateLimiter) (pair : Str × Str) : Str :=
  limiter.redisKey (pair.1 ++ ':' :: pair.2)

omit [Platform] in
theorem pairKey_injective {pair other : Str × Str} (plain : ':' ∉ pair.2) (plain' : ':' ∉ other.2)
    (same : pairKey limiter pair = pairKey limiter other) : pair = other := by
  have joined := RedisLoginRateLimiter.redisKey_injective same
  have parts := DelimitedJoin.join_pair ':' plain plain'
    (by simpa [DelimitedJoin.join] using joined)
  exact Prod.ext parts.1 parts.2

/-- What an attempt does. -/
inductive LoginEffect (limiter : RedisLoginRateLimiter) (s : ThrottleRun τ)
    (attempt : LoginAttempt) : Except Raised (TokenResponse τ) × AuthTables × Store Str → Prop
  | refused {c : Counter} :
    s.store.read attempt.readings.start (pairKey limiter attempt.pair) = some c →
    limiter.maxAttempts ≤ c.value →
    LoginEffect limiter s attempt (.error (.app rateLimitExceededError), s.tables, s.store)
  | failed :
    LoginEffect limiter s attempt (.error (.app authenticationError), s.tables,
      hit s.store attempt.readings.check (pairKey limiter attempt.pair) limiter.window)
  | inactive : LoginEffect limiter s attempt (.error (.app inactiveUserError), s.tables, s.store)
  | succeeded (pair : TokenResponse τ) (tables : AuthTables) :
    LoginEffect limiter s attempt
      (.ok pair, tables, s.store.delete (pairKey limiter attempt.pair))

omit [TokenLibrary τ] in
theorem isAllowed_false {attempt : LoginAttempt} : limiter.isAllowed attempt.readings.start
      (buildLoginRateLimitKey attempt.clientHost attempt.payload.email) .received s.store = false ↔
    ∃ c, s.store.read attempt.readings.start (pairKey limiter attempt.pair) = some c ∧
      limiter.maxAttempts ≤ c.value := by
  rw [← Bool.not_eq_true, RedisLoginRateLimiter.isAllowed_iff]
  simp [pairKey, LoginAttempt.pair, buildLoginRateLimitKey]

theorem login_refused {attempt : LoginAttempt} {c : Counter}
    (here : s.store.read attempt.readings.start (pairKey limiter attempt.pair) = some c)
    (many : limiter.maxAttempts ≤ c.value) : s.login settings limiter attempt =
      (.error (.app rateLimitExceededError), s.tables, s.store) := by
  have refused := isAllowed_false.mpr ⟨c, here, many⟩
  simp [ThrottleRun.login, loginUser, RedisLoginRateLimiter.available, refused]

variable (settings limiter) in
theorem login_effect {attempt : LoginAttempt} (assumed : s.Assumed (.login attempt)) :
    LoginEffect limiter s attempt (s.login settings limiter attempt) := by
  obtain ⟨-, vacant, -⟩ := assumed
  cases allowed : limiter.isAllowed attempt.readings.start
      (buildLoginRateLimitKey attempt.clientHost attempt.payload.email) .received s.store with
  | false =>
    obtain ⟨c, here, many⟩ := isAllowed_false.mp allowed
    rw [login_refused here many]
    exact .refused here many
  | true =>
    simp only [ThrottleRun.login, loginUser, RedisLoginRateLimiter.available, allowed]
    split
    · exact .failed
    · rename_i user found
      split
      · split
        · obtain ⟨pair, issued, -⟩ := issueTokenPair_vacant (τ := τ) settings vacant user
            attempt.readings
          rw [issued]
          exact .succeeded pair _
        · exact .inactive
      · exact .failed

omit [TokenLibrary τ] in
/-- Only a wrong password is a failure. -/
theorem event_other {pair : Str × Str} {attempt : LoginAttempt} {e : AppError}
    (other : e ≠ authenticationError) :
    LoginRecord.event pair (⟨attempt, .error (.app e)⟩ : LoginRecord τ) = none := by
  simp [LoginRecord.event, other]

omit [TokenLibrary τ] in
theorem pairEvents_cons (pair : Str × Str) (r : LoginRecord τ) (history : List (LoginRecord τ)) :
    pairEvents pair (r :: history) = (r.event pair).toList ++ pairEvents pair history := by
  simp only [pairEvents, List.filterMap_cons]
  cases r.event pair <;> rfl

/-- The counters of the pairs follow their failures and logins. -/
structure ThrottleInvariant (limiter : RedisLoginRateLimiter) (s : ThrottleRun τ) : Prop where
  ordered : ∀ pair, Ordered s.now (pairEvents pair s.history)
  follows : ∀ pair, ':' ∉ pair.2 → Follows limiter.window s.now (pairEvents pair s.history)
    (s.store (pairKey limiter pair))

omit [TokenLibrary τ] in
theorem throttleInvariant_initial (initial : s.Initial) : ThrottleInvariant limiter s where
  ordered _ := by simp [initial.2, Ordered, pairEvents, recent]
  follows _ _ := by
    rw [initial.1, initial.2]
    exact follows_nil

omit [TokenLibrary τ] in
/-- An attempt that is nothing to a pair and leaves its counter alone. -/
theorem ThrottleInvariant.keeps (holds : ThrottleInvariant limiter s) {pair : Str × Str}
    {r : LoginRecord τ} (nothing : r.event pair = none) {now : Timestamp} (later : s.now ≤ now)
    {store : Store Str}
    (same : ':' ∉ pair.2 → store (pairKey limiter pair) = s.store (pairKey limiter pair)) :
    Ordered now (pairEvents pair (r :: s.history)) ∧ (':' ∉ pair.2 →
      Follows limiter.window now (pairEvents pair (r :: s.history))
        (store (pairKey limiter pair))) := by
  rw [pairEvents_cons, nothing]
  refine ⟨ordered_later (holds.ordered pair) later, fun plain => ?_⟩
  rw [same plain]
  exact follows_later (holds.follows pair plain) later

omit [TokenLibrary τ] in
theorem ThrottleInvariant.login (holds : ThrottleInvariant limiter s) {attempt : LoginAttempt}
    (assumed : s.Assumed (.login attempt))
    {done : Except Raised (TokenResponse τ) × AuthTables × Store Str}
    (effect : LoginEffect limiter s attempt done) :
    ThrottleInvariant limiter (⟨done.2.1, done.2.2, attempt.readings.finish,
      ⟨attempt, done.1⟩ :: s.history⟩ : ThrottleRun τ) := by
  obtain ⟨after, -, plain⟩ := assumed
  obtain ⟨start, check, finish⟩ := attempt.readings.ordered
  have checked : s.now ≤ attempt.readings.check := after.trans start
  have ends : attempt.readings.check ≤ attempt.readings.finish := check.trans finish
  have both : ∀ pair, Ordered attempt.readings.finish
        (pairEvents pair (⟨attempt, done.1⟩ :: s.history)) ∧
      (':' ∉ pair.2 → Follows limiter.window attempt.readings.finish
        (pairEvents pair (⟨attempt, done.1⟩ :: s.history)) (done.2.2 (pairKey limiter pair))) := by
    intro pair
    by_cases own : attempt.pair = pair
    · cases effect with
      | refused here many =>
        exact holds.keeps (event_other (by decide)) (checked.trans ends) fun _ => rfl
      | inactive => exact holds.keeps (event_other (by decide)) (checked.trans ends) fun _ => rfl
      | failed =>
        have failure : pairEvents pair (⟨attempt, .error (.app authenticationError)⟩ :: s.history) =
            .hit attempt.readings.check :: pairEvents pair s.history := by
          simp [pairEvents_cons, LoginRecord.event, own]
        rw [failure, own]
        refine ⟨ordered_later (ordered_hit (holds.ordered pair) checked) ends, fun plain => ?_⟩
        have counted := follows_hit (holds.ordered pair) (holds.follows pair plain) checked
        exact follows_later counted ends
      | succeeded tokens tables =>
        have login : pairEvents pair (⟨attempt, .ok tokens⟩ :: s.history) =
            .reset :: pairEvents pair s.history := by
          simp [pairEvents_cons, LoginRecord.event, own]
        simp only [login, own, delete_self]
        exact ⟨ordered_reset _ _, fun _ => follows_reset⟩
    · have nothing : LoginRecord.event pair ⟨attempt, done.1⟩ = none := if_neg own
      refine holds.keeps nothing (checked.trans ends) fun other => ?_
      have apart : pairKey limiter pair ≠ pairKey limiter attempt.pair := fun same =>
        own (pairKey_injective plain other same.symm)
      cases effect with
      | refused | inactive => rfl
      | failed => exact hit_other apart
      | succeeded => exact delete_other apart
  exact ⟨fun pair => (both pair).1, fun pair => (both pair).2⟩

omit [TokenLibrary τ] in
/-- The counter of a pair refuses it exactly if it is throttled. -/
theorem ThrottleInvariant.throttled_iff (holds : ThrottleInvariant limiter s) {pair : Str × Str}
    (plain : ':' ∉ pair.2) {now : Timestamp} (later : s.now ≤ now) :
    (∃ c, s.store.read now (pairKey limiter pair) = some c ∧ limiter.maxAttempts ≤ c.value) ↔
      Throttled limiter pair now s.history := by
  have found : s.store.read now (pairKey limiter pair) = _ := holds.follows pair plain now later
  unfold Throttled
  rw [found]
  cases started : opened limiter.window (pairEvents pair s.history) with
  | none => simp
  | some start =>
    have counted := hitsSince_pos started
    by_cases inside : now < start + limiter.window
    · simp [inside, counted]
    · simp [inside]

/-- An attempt is refused exactly if its pair is throttled, whatever the password. -/
theorem login_throttled_iff (settings : Settings) (limiter : RedisLoginRateLimiter)
    (s : ThrottleRun τ) (reached : Reach (throttleMachine settings limiter) ThrottleRun.Assumed
      ThrottleRun.Initial s)
    (attempt : LoginAttempt) (assumed : s.Assumed (.login attempt)) :
    ((s.login settings limiter attempt).1 = .error (.app rateLimitExceededError) ↔
      Throttled limiter attempt.pair attempt.readings.start s.history) ∧
    (Throttled limiter attempt.pair attempt.readings.start s.history →
      s.login settings limiter attempt = (.error (.app rateLimitExceededError), s.tables,
        s.store)) := by
  have holds : ThrottleInvariant limiter s := by
    refine reached.invariant (fun u initial => throttleInvariant_initial initial)
      fun u t op holds guard moved => ?_
    cases op with
    | login attempt =>
      cases moved
      exact holds.login guard (login_effect settings limiter guard)
    | others tables =>
      cases moved
      exact ⟨holds.ordered, holds.follows⟩
  have throttled := holds.throttled_iff assumed.2.2 assumed.1
  have refused : Throttled limiter attempt.pair attempt.readings.start s.history →
      s.login settings limiter attempt = (.error (.app rateLimitExceededError), s.tables,
        s.store) := by
    intro many
    obtain ⟨c, here, bound⟩ := throttled.mpr many
    exact login_refused here bound
  refine ⟨⟨fun answer => ?_, fun many => by rw [refused many]⟩, refused⟩
  have effect := login_effect settings limiter assumed
  generalize s.login settings limiter attempt = done at effect answer
  cases effect with
  | refused here many => exact throttled.mp ⟨_, here, many⟩
  | failed =>
    have same : authenticationError = rateLimitExceededError := by simpa using answer
    exact absurd same (by decide)
  | inactive =>
    have same : inactiveUserError = rateLimitExceededError := by simpa using answer
    exact absurd same (by decide)
  | succeeded => cases answer

end Attempts

section Sample

/-- An attempt with an email that is not registered. -/
def strangerAt (t : Timestamp) : LoginAttempt where
  clientHost := none
  payload := ⟨['u'], "password".toList, samplePassword_length⟩
  readings := readingsAt t
  uuids := ⟨repeatedUuid 'a', repeatedUuid 'f'⟩

theorem login_throttled_secondAttempt :
    let _ := asciiPlatform
    let _ := openLibrary
    ∃ s, (throttleMachine (τ := Claims × Str) sharedSecret strictLimiter).run
        { tables := {}, now := 0 } [.login (strangerAt 0)] = some s ∧
      Throttled strictLimiter (strangerAt 1).pair 1 s.history ∧
      (s.login sharedSecret strictLimiter (strangerAt 1)).1 =
        .error (.app rateLimitExceededError) := by
  intro _ _
  have meets : Meets (throttleMachine (τ := Claims × Str) sharedSecret strictLimiter)
      ThrottleRun.Assumed { tables := {}, now := 0 } [.login (strangerAt 0)] :=
    ⟨⟨by decide, rfl, by decide⟩, fun _ _ => trivial⟩
  obtain ⟨s, ran⟩ : ∃ s, (throttleMachine (τ := Claims × Str) sharedSecret strictLimiter).run
      { tables := {}, now := 0 } [.login (strangerAt 0)] = some s := ⟨_, rfl⟩
  have start : Reach (throttleMachine (τ := Claims × Str) sharedSecret strictLimiter)
      ThrottleRun.Assumed ThrottleRun.Initial { tables := {}, now := 0 } := .start ⟨rfl, rfl⟩
  have reached := start.of_run meets ran
  have exact := login_throttled_iff sharedSecret strictLimiter s reached (strangerAt 1)
  cases ran
  have refused := (exact ⟨by decide, rfl, by decide⟩).1
  exact ⟨_, rfl, refused.mp rfl, rfl⟩

end Sample

end LogLens
