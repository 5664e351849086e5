import LogLens.RateLimit
import LogLens.RefreshHistory
import LogLens.Library.PhaseCount
import Mathlib.Data.Fintype.Basic

/-! Concurrent requests of `login_user` with one rate-limit key, in one window: at most
`max_attempts` of them fail their verification and all others are refused, exactly if each
request that `is_allowed` admits finds that many failures neither counted nor under way. -/

namespace LogLens
open ExpiringCounters FixedWindow LabelledMachine PhaseCount

inductive LoginPhase
  /-- before `is_allowed` -/
  | started
  /-- `is_allowed` was true -/
  | verify
  /-- the verification failed -/
  | addFailure
  /-- the verification succeeded -/
  | clear
  | finished (answer : Except Raised Unit)
  deriving DecidableEq

structure LoginRace (ι : Type) where
  store : Store Str
  phase : ι → LoginPhase := fun _ => .started

structure RaceStep (ι : Type) where
  request : ι
  now : Timestamp
  tables : AuthTables

def verification [Platform] (τ : Type) [TokenLibrary τ] (t : AuthTables) (payload : LoginRequest) :
    LoginPhase :=
  match t.getByEmail (Platform.lower (strip payload.email)) with
  | none => .addFailure
  | some user =>
    if TokenLibrary.verifyPassword τ payload.password user.passwordHash then
      if user.isActive then .clear else .finished (.error (.app inactiveUserError))
    else .addFailure

section Machine
variable {ι : Type} [DecidableEq ι] [Platform] (τ : Type) [TokenLibrary τ]
  (limiter : RedisLoginRateLimiter) (rateLimitKey : Str) (requests : ι → LoginRequest)

def LoginRace.goto (s : LoginRace ι) (i : ι) (phase : LoginPhase) : LoginRace ι :=
  { s with phase := Function.update s.phase i phase }

def LoginRace.advance (s : LoginRace ι) (op : RaceStep ι) : Option (LoginRace ι) :=
  match s.phase op.request with
  | .started =>
    if limiter.isAllowed op.now rateLimitKey .received s.store then some (s.goto op.request .verify)
    else some (s.goto op.request (.finished (.error (.app rateLimitExceededError))))
  | .verify => some (s.goto op.request (verification τ op.tables (requests op.request)))
  | .addFailure =>
    some { s.goto op.request (.finished (.error (.app authenticationError))) with
      store := limiter.addFailure op.now rateLimitKey .received .received s.store }
  | .clear =>
    some { s.goto op.request (.finished (.ok ())) with
      store := limiter.clear rateLimitKey .received s.store }
  | .finished _ => none

/-- All steps are within one window. -/
def raceMachine (opens : Timestamp) : Machine (LoginRace ι) (RaceStep ι) where
  step s op :=
    if opens ≤ op.now ∧ op.now < opens + limiter.window then
      s.advance τ limiter rateLimitKey requests op
    else none

end Machine

/-- Past `is_allowed`, and not counted yet. -/
def LoginPhase.underWay : LoginPhase → Bool
  | .verify | .addFailure => true
  | _ => false

def LoginPhase.counted : LoginPhase → Bool
  | .finished (.error e) => e = .app authenticationError
  | _ => false

/-- The verification was reached and failed. -/
def LoginPhase.failing : LoginPhase → Bool
  | .addFailure => true
  | phase => phase.counted

/-- Neither refused nor on the way to a failed verification. -/
def LoginPhase.slipped : LoginPhase → Bool
  | .clear | .finished (.ok _) => true
  | .finished (.error e) => e ≠ .app authenticationError ∧ e ≠ .app rateLimitExceededError
  | _ => false

section Claim
variable {ι : Type} [Fintype ι] (limiter : RedisLoginRateLimiter)

/-- At most `max_attempts` requests fail their verification, and the others that came to an
end are refused. -/
def LimitHolds (s : LoginRace ι) : Prop :=
  (count LoginPhase.failing s.phase : Int) ≤ limiter.maxAttempts ∧
    ∀ i answer, s.phase i = .finished answer →
      answer = .error (.app authenticationError) ∨ answer = .error (.app rateLimitExceededError)

/-- A request that is admitted finds fewer than `max_attempts` failures counted or under way,
and a verification fails. -/
def AdmitsFew [Platform] (τ : Type) [TokenLibrary τ] (rateLimitKey : Str)
    (requests : ι → LoginRequest) (s : LoginRace ι) (op : RaceStep ι) : Prop :=
  (s.phase op.request = .started →
    limiter.isAllowed op.now rateLimitKey .received s.store = true →
    ((s.store.get op.now (limiter.redisKey rateLimitKey)).getD 0 : Int) +
      count LoginPhase.underWay s.phase < limiter.maxAttempts) ∧
  (s.phase op.request = .verify →
    verification τ op.tables (requests op.request) = .addFailure)

end Claim

section Alone
variable {ι : Type} [DecidableEq ι] [Platform] {τ : Type} [TokenLibrary τ]
  {limiter : RedisLoginRateLimiter} {rateLimitKey : Str} {requests : ι → LoginRequest}
  {opens : Timestamp} {s : LoginRace ι}

/-- The request comes to an answer by steps of its own. -/
def Answers (τ : Type) [TokenLibrary τ] (limiter : RedisLoginRateLimiter) (rateLimitKey : Str)
    (requests : ι → LoginRequest) (opens : Timestamp) (s : LoginRace ι) (i : ι)
    (answer : Except Raised Unit) (store : Store Str) : Prop :=
  ∃ ops u, (∀ op ∈ ops, op.request = i) ∧
    (raceMachine τ limiter rateLimitKey requests opens).run s ops = some u ∧
      u.phase i = .finished answer ∧ u.store = store

theorem answers_finished {i : ι} {answer : Except Raised Unit}
    (done : s.phase i = .finished answer) :
    Answers τ limiter rateLimitKey requests opens s i answer s.store :=
  ⟨[], s, by simp, rfl, done, rfl⟩

theorem answers_step {i : ι} {now : Timestamp} {t : AuthTables} {u : LoginRace ι}
    {answer : Except Raised Unit} {store : Store Str}
    (inside : opens ≤ now ∧ now < opens + limiter.window)
    (moved : s.advance τ limiter rateLimitKey requests ⟨i, now, t⟩ = some u)
    (rest : Answers τ limiter rateLimitKey requests opens u i answer store) :
    Answers τ limiter rateLimitKey requests opens s i answer store := by
  obtain ⟨ops, v, own, ran, done⟩ := rest
  refine ⟨⟨i, now, t⟩ :: ops, v, by simpa using own, ?_, done⟩
  have step : (raceMachine τ limiter rateLimitKey requests opens).step s ⟨i, now, t⟩ = some u := by
    simp only [raceMachine, inside, and_self, if_true, moved]
  rw [run_cons, step]
  exact ran

variable (rateLimitKey) in
theorem loginUser_admitted (settings : Settings) {payload : LoginRequest} {readings : Readings}
    {uuids : Uuids} {t : AuthTables} {store : Store Str}
    (vacant : t.refreshTokens (hashRefreshTokenIdentifier uuids.jti.text) = none)
    (allowed : limiter.isAllowed readings.start rateLimitKey .received store = true) :
    (verification τ t payload = .addFailure ∧
      loginUser (τ := τ) settings limiter.available payload rateLimitKey readings uuids t store =
        (.error (.app authenticationError), t,
          limiter.addFailure readings.check rateLimitKey .received .received store)) ∨
    (verification τ t payload = .finished (.error (.app inactiveUserError)) ∧
      loginUser (τ := τ) settings limiter.available payload rateLimitKey readings uuids t store =
        (.error (.app inactiveUserError), t, store)) ∨
    (verification τ t payload = .clear ∧ ∃ (pair : TokenResponse τ) (t' : AuthTables),
      loginUser settings limiter.available payload rateLimitKey readings uuids t store =
        (.ok pair, t', limiter.clear rateLimitKey .received store)) := by
  unfold verification loginUser
  simp only [RedisLoginRateLimiter.available, allowed]
  cases t.getByEmail (Platform.lower (strip payload.email)) with
  | none => exact .inl ⟨rfl, rfl⟩
  | some user =>
    obtain ⟨pair, t', issued⟩ : ∃ (pair : TokenResponse τ) (t' : AuthTables),
        issueTokenPair settings user readings uuids t = (.ok pair, t') := by
      obtain ⟨pair, issued, -⟩ := issueTokenPair_vacant (τ := τ) settings vacant user readings
      exact ⟨pair, _, issued⟩
    cases right : TokenLibrary.verifyPassword τ payload.password user.passwordHash with
    | false => exact .inl ⟨by simp [right], by simp [right]⟩
    | true =>
      cases active : user.isActive with
      | false => exact .inr (.inl ⟨by simp [right, active], by simp [right, active]⟩)
      | true =>
        exact .inr (.inr ⟨by simp [right, active], pair, t', by simp [right, active, issued]⟩)

/-- A request that meets no other one answers, and leaves the counters, as `login_user` does. -/
theorem login_alone (settings : Settings) {i : ι} (waits : s.phase i = .started)
    (readings : Readings) (begins : opens ≤ readings.start)
    (ends : readings.check < opens + limiter.window) (uuids : Uuids) (t : AuthTables)
    (vacant : t.refreshTokens (hashRefreshTokenIdentifier uuids.jti.text) = none) :
    ∃ answer t' store, loginUser (τ := τ) settings limiter.available (requests i) rateLimitKey
        readings uuids t s.store = (answer, t', store) ∧
      Answers τ limiter rateLimitKey requests opens s i (answer.map fun _ => ()) store := by
  have order := readings.ordered.1
  have atStart : opens ≤ readings.start ∧ readings.start < opens + limiter.window :=
    ⟨begins, lt_of_le_of_lt order ends⟩
  have atCheck : opens ≤ readings.check ∧ readings.check < opens + limiter.window :=
    ⟨begins.trans order, ends⟩
  have moves (u : LoginRace ι) (phase : LoginPhase) : (u.goto i phase).phase i = phase :=
    Function.update_self _ _ _
  cases allowed : limiter.isAllowed readings.start rateLimitKey .received s.store with
  | false =>
    refine ⟨.error (.app rateLimitExceededError), t, s.store, ?_, answers_step (t := t) atStart
      (u := s.goto i (.finished (.error (.app rateLimitExceededError)))) ?_
      (answers_finished (moves _ _))⟩
    · simp [loginUser, RedisLoginRateLimiter.available, allowed]
    · simp [LoginRace.advance, waits, allowed]
  | true =>
    have admits : s.advance τ limiter rateLimitKey requests ⟨i, readings.start, t⟩ =
        some (s.goto i .verify) := by simp [LoginRace.advance, waits, allowed]
    have verifies : (s.goto i .verify).advance τ limiter rateLimitKey requests
        ⟨i, readings.check, t⟩ =
        some ((s.goto i .verify).goto i (verification τ t (requests i))) := by
      simp [LoginRace.advance, moves]
    obtain ⟨failed, same⟩ | ⟨disabled, same⟩ | ⟨verified, pair, t', same⟩ :=
      loginUser_admitted (τ := τ) rateLimitKey settings vacant allowed
    · rw [failed] at verifies
      let u : LoginRace ι := (s.goto i .verify).goto i .addFailure
      have counts : u.advance τ limiter rateLimitKey requests ⟨i, readings.check, t⟩ =
          some ⟨limiter.addFailure readings.check rateLimitKey .received .received s.store,
            (u.goto i (.finished (.error (.app authenticationError)))).phase⟩ := by
        simp only [LoginRace.advance, u, moves]
        rfl
      exact ⟨_, _, _, same, answers_step atStart admits (answers_step atCheck verifies
        (answers_step atCheck counts (answers_finished (moves u _))))⟩
    · rw [disabled] at verifies
      exact ⟨_, _, _, same, answers_step atStart admits (answers_step atCheck verifies
        (answers_finished (moves _ _)))⟩
    · rw [verified] at verifies
      let u : LoginRace ι := (s.goto i .verify).goto i .clear
      have clears : u.advance τ limiter rateLimitKey requests ⟨i, readings.check, t⟩ =
          some ⟨limiter.clear rateLimitKey .received s.store,
            (u.goto i (.finished (.ok ()))).phase⟩ := by
        simp only [LoginRace.advance, u, moves]
        rfl
      exact ⟨_, _, _, same, answers_step atStart admits (answers_step atCheck verifies
        (answers_step atCheck clears (answers_finished (moves u _))))⟩

end Alone

section Counts
variable {ι : Type} [Fintype ι]

structure Counts (before after : ι → LoginPhase) (admitted counted slipped : Nat) : Prop where
  admitted : count LoginPhase.underWay after + count LoginPhase.counted after =
    count LoginPhase.underWay before + count LoginPhase.counted before + admitted
  counted : count LoginPhase.counted after = count LoginPhase.counted before + counted
  slipped : count LoginPhase.slipped after = count LoginPhase.slipped before + slipped

theorem counts_goto [DecidableEq ι] {phase : ι → LoginPhase} {i : ι} {old : LoginPhase}
    (here : phase i = old) {new : LoginPhase} {admitted counted slipped : Nat}
    (admits : new.underWay.toNat + new.counted.toNat =
      old.underWay.toNat + old.counted.toNat + admitted)
    (counts : new.counted.toNat = old.counted.toNat + counted)
    (slips : new.slipped.toNat = old.slipped.toNat + slipped) :
    Counts phase (Function.update phase i new) admitted counted slipped := by
  have moved (kind : LoginPhase → Bool) := count_update kind phase i new
  rw [here] at moved
  have underWay := moved LoginPhase.underWay
  have counted := moved LoginPhase.counted
  have slipped := moved LoginPhase.slipped
  constructor <;> omega

theorem slipped_ne_zero {phase : ι → LoginPhase} {i : ι} (through : (phase i).slipped = true) :
    count LoginPhase.slipped phase ≠ 0 :=
  Nat.ne_of_gt (count_pos_iff.mpr ⟨i, through⟩)

end Counts

section Steps
variable {ι : Type} [DecidableEq ι] [Fintype ι] [Platform] {τ : Type} [TokenLibrary τ]
  {limiter : RedisLoginRateLimiter} {rateLimitKey : Str} {requests : ι → LoginRequest}
  {opens : Timestamp} {s t : LoginRace ι} {op : RaceStep ι}

inductive RaceEffect (τ : Type) [TokenLibrary τ] (limiter : RedisLoginRateLimiter)
    (rateLimitKey : Str) (requests : ι → LoginRequest) (s : LoginRace ι) (op : RaceStep ι)
    (t : LoginRace ι) : Prop
  | admits : s.phase op.request = .started →
    limiter.isAllowed op.now rateLimitKey .received s.store = true → t.store = s.store →
    Counts s.phase t.phase 1 0 0 → RaceEffect τ limiter rateLimitKey requests s op t
  | refuses : s.phase op.request = .started →
    limiter.isAllowed op.now rateLimitKey .received s.store = false → t.store = s.store →
    Counts s.phase t.phase 0 0 0 → RaceEffect τ limiter rateLimitKey requests s op t
  | fails : s.phase op.request = .verify →
    verification τ op.tables (requests op.request) = .addFailure → t.store = s.store →
    Counts s.phase t.phase 0 0 0 → RaceEffect τ limiter rateLimitKey requests s op t
  | passes : s.phase op.request = .verify →
    verification τ op.tables (requests op.request) ≠ .addFailure →
    count LoginPhase.slipped t.phase ≠ 0 → RaceEffect τ limiter rateLimitKey requests s op t
  | counts : s.phase op.request = .addFailure →
    t.store = hit s.store op.now (limiter.redisKey rateLimitKey) limiter.window →
    Counts s.phase t.phase 0 1 0 → RaceEffect τ limiter rateLimitKey requests s op t
  | clears : count LoginPhase.slipped s.phase ≠ 0 → count LoginPhase.slipped t.phase ≠ 0 →
    RaceEffect τ limiter rateLimitKey requests s op t

theorem verification_cases (t : AuthTables) (payload : LoginRequest) :
    verification τ t payload = .addFailure ∨ (verification τ t payload).slipped = true := by
  have disabled : (LoginPhase.finished (.error (.app inactiveUserError))).slipped = true := by
    decide
  unfold verification
  split
  · exact .inl rfl
  · split
    · split
      · exact .inr rfl
      · exact .inr disabled
    · exact .inl rfl

theorem race_effect
    (moved : (raceMachine τ limiter rateLimitKey requests opens).step s op = some t) :
    opens ≤ op.now ∧ op.now < opens + limiter.window ∧
      RaceEffect τ limiter rateLimitKey requests s op t := by
  simp only [raceMachine] at moved
  split at moved
  · rename_i inside
    refine ⟨inside.1, inside.2, ?_⟩
    cases here : s.phase op.request with
    | started =>
      cases allowed : limiter.isAllowed op.now rateLimitKey .received s.store with
      | true =>
        simp only [LoginRace.advance, here, allowed, if_true, Option.some.injEq] at moved
        subst moved
        exact .admits here allowed rfl (counts_goto here (by decide) (by decide) (by decide))
      | false =>
        simp only [LoginRace.advance, here, allowed, Bool.false_eq_true, if_false,
          Option.some.injEq] at moved
        subst moved
        exact .refuses here allowed rfl (counts_goto here (by decide) (by decide) (by decide))
    | verify =>
      simp only [LoginRace.advance, here, Option.some.injEq] at moved
      subst moved
      cases verification_cases (τ := τ) op.tables (requests op.request) with
      | inl fails =>
        rw [fails]
        exact .fails here fails rfl (counts_goto here (by decide) (by decide) (by decide))
      | inr through =>
        refine .passes here (fun fails => ?_) (slipped_ne_zero (i := op.request) ?_)
        · rw [fails] at through
          cases through
        · simpa [LoginRace.goto] using through
    | addFailure =>
      simp only [LoginRace.advance, here, Option.some.injEq] at moved
      subst moved
      exact .counts here rfl (counts_goto here (by decide) (by decide) (by decide))
    | clear =>
      simp only [LoginRace.advance, here, Option.some.injEq] at moved
      subst moved
      refine .clears (slipped_ne_zero (i := op.request) ?_) (slipped_ne_zero (i := op.request) ?_)
      · rw [here]
        rfl
      · simp [LoginRace.goto, LoginPhase.slipped]
    | finished =>
      simp only [LoginRace.advance, here] at moved
      cases moved
  · cases moved

/-- The requests admitted so far fail or are to fail, and are at most `max_attempts`. -/
def FewAdmitted (limiter : RedisLoginRateLimiter) (s : LoginRace ι) : Prop :=
  ((count LoginPhase.underWay s.phase + count LoginPhase.counted s.phase : Nat) : Int) ≤
    limiter.maxAttempts ∧ count LoginPhase.slipped s.phase = 0

omit [DecidableEq ι] in
theorem fewAdmitted_before (effect : RaceEffect τ limiter rateLimitKey requests s op t)
    (few : FewAdmitted limiter t) : FewAdmitted limiter s := by
  obtain ⟨bound, none⟩ := few
  cases effect with
  | admits _ _ _ counts | refuses _ _ _ counts | fails _ _ _ counts | counts _ _ counts =>
    have admitted := counts.admitted
    have slipped := counts.slipped
    exact ⟨by omega, by omega⟩
  | passes _ _ through | clears _ through => exact absurd none through

def CounterHolds (limiter : RedisLoginRateLimiter) (rateLimitKey : Str) (opens : Timestamp)
    (s : LoginRace ι) : Prop :=
  (count LoginPhase.counted s.phase = 0 ∧
    s.store.read opens (limiter.redisKey rateLimitKey) = none) ∨
  (count LoginPhase.counted s.phase ≠ 0 ∧ ∃ expiry, opens + limiter.window ≤ expiry ∧
    s.store (limiter.redisKey rateLimitKey) =
      some { value := count LoginPhase.counted s.phase, expiresAt := some expiry })

omit [DecidableEq ι] [Platform] in
theorem CounterHolds.get (holds : CounterHolds limiter rateLimitKey opens s) {now : Timestamp}
    (later : opens ≤ now) (inside : now < opens + limiter.window) :
    (s.store.get now (limiter.redisKey rateLimitKey)).getD 0 =
      count LoginPhase.counted s.phase := by
  cases holds with
  | inl fresh =>
    rw [Store.get, read_none_later later fresh.2, fresh.1]
    rfl
  | inr counting =>
    obtain ⟨-, expiry, beyond, stored⟩ := counting
    have live : s.store.read now (limiter.redisKey rateLimitKey) =
        some { value := count LoginPhase.counted s.phase, expiresAt := some expiry } :=
      read_some.mpr ⟨stored, live_iff.mpr fun e same => by
        rw [← Option.some.inj same]
        exact lt_of_lt_of_le inside beyond⟩
    simp [Store.get, live]

omit [DecidableEq ι] in
theorem CounterHolds.next (holds : CounterHolds limiter rateLimitKey opens s)
    (later : opens ≤ op.now) (inside : op.now < opens + limiter.window)
    (few : FewAdmitted limiter t)
    (effect : RaceEffect τ limiter rateLimitKey requests s op t) :
    CounterHolds limiter rateLimitKey opens t := by
  cases effect with
  | admits _ _ store counts | refuses _ _ store counts | fails _ _ store counts =>
    unfold CounterHolds
    rw [counts.counted, store]
    exact holds
  | counts _ store counts =>
    refine .inr ⟨?_, ?_⟩
    · rw [counts.counted]
      exact Nat.succ_ne_zero _
    · rw [counts.counted, store]
      cases holds with
      | inl fresh =>
        refine ⟨op.now + limiter.window, Int.add_le_add_right later _, ?_⟩
        rw [hit_none (read_none_later later fresh.2), put_self, fresh.1]
      | inr counting =>
        obtain ⟨some, expiry, beyond, stored⟩ := counting
        have found := read_some.mpr ⟨stored, live_iff.mpr fun e same => by
          rw [← Option.some.inj same]
          exact lt_of_lt_of_le inside beyond⟩
        refine ⟨expiry, beyond, ?_⟩
        rw [hit_some found some, put_self]
  | passes _ _ through | clears _ through => exact absurd few.2 through

omit [DecidableEq ι] in
theorem fewAdmitted_iff (holds : CounterHolds limiter rateLimitKey opens s)
    (later : opens ≤ op.now) (inside : op.now < opens + limiter.window)
    (few : FewAdmitted limiter s)
    (effect : RaceEffect τ limiter rateLimitKey requests s op t) :
    FewAdmitted limiter t ↔ AdmitsFew limiter τ rateLimitKey requests s op := by
  obtain ⟨bound, none⟩ := few
  unfold FewAdmitted AdmitsFew
  rw [holds.get later inside]
  cases effect with
  | admits phase allowed store counts =>
    rw [counts.admitted, counts.slipped, phase, allowed]
    simp only [none, true_implies, reduceCtorEq, false_implies, and_true]
    omega
  | refuses phase refused store counts =>
    rw [counts.admitted, counts.slipped, phase, refused]
    simpa [none] using bound
  | fails phase failed store counts =>
    rw [counts.admitted, counts.slipped, phase, failed]
    simpa [none] using bound
  | passes phase passed through =>
    rw [phase]
    simp [through, passed]
  | counts phase store counts =>
    rw [counts.admitted, counts.slipped, phase]
    simpa [none] using bound
  | clears through => exact absurd none through

omit [DecidableEq ι] [Platform] in
theorem FewAdmitted.limitHolds (few : FewAdmitted limiter s) : LimitHolds limiter s := by
  obtain ⟨bound, none⟩ := few
  have admitted : count LoginPhase.failing s.phase ≤
      count (fun phase => phase.underWay || phase.counted) s.phase := by
    refine count_le fun i failing => ?_
    cases here : s.phase i with
    | addFailure => rfl
    | started | verify | clear =>
      rw [here] at failing
      cases failing
    | finished answer =>
      rw [here] at failing
      simpa [LoginPhase.underWay, LoginPhase.failing] using failing
  have parts := count_or LoginPhase.underWay LoginPhase.counted
    (fun phase => by cases phase <;> simp [LoginPhase.underWay, LoginPhase.counted]) s.phase
  refine ⟨by omega, fun i answer here => ?_⟩
  have refused := count_eq_zero_iff.mp none i
  rw [here] at refused
  cases answer with
  | ok => cases refused
  | error e =>
    by_cases failed : e = .app authenticationError
    · exact .inl (by rw [failed])
    · simp [LoginPhase.slipped, failed] at refused
      exact .inr (by rw [refused])

omit [DecidableEq ι] [Platform] in
theorem LimitHolds.fewAdmitted (limit : LimitHolds limiter s)
    (done : ∀ i, s.phase i = .started ∨ ∃ answer, s.phase i = .finished answer) :
    FewAdmitted limiter s := by
  obtain ⟨bound, answers⟩ := limit
  have idle : count LoginPhase.underWay s.phase = 0 := by
    refine count_eq_zero_iff.mpr fun i => ?_
    cases done i with
    | inl waits => rw [waits]; rfl
    | inr ended =>
      obtain ⟨answer, here⟩ := ended
      rw [here]
      rfl
  have failing : count LoginPhase.counted s.phase ≤ count LoginPhase.failing s.phase := by
    refine count_le fun i counted => ?_
    cases here : s.phase i <;> rw [here] at counted <;> first | exact counted | cases counted
  refine ⟨by omega, count_eq_zero_iff.mpr fun i => ?_⟩
  cases done i with
  | inl waits => rw [waits]; rfl
  | inr ended =>
    obtain ⟨answer, here⟩ := ended
    rw [here]
    cases answers i answer here with
    | inl failed => rw [failed]; decide
    | inr refused => rw [refused]; decide

/-- In a run whose steps meet the condition the limit holds; where it holds once no request is
under way, they do. -/
theorem login_limit_iff (limiter : RedisLoginRateLimiter) (positive : 1 ≤ limiter.maxAttempts)
    (rateLimitKey : Str) (requests : ι → LoginRequest) (opens : Timestamp) (store : Store Str)
    (fresh : store.read opens (limiter.redisKey rateLimitKey) = none) (ops : List (RaceStep ι))
    (s : LoginRace ι) (ran : (raceMachine τ limiter rateLimitKey requests opens).run
      { store := store } ops = some s) :
    (Meets (raceMachine τ limiter rateLimitKey requests opens)
      (AdmitsFew limiter τ rateLimitKey requests) { store := store } ops → LimitHolds limiter s) ∧
    ((∀ i, s.phase i = .started ∨ ∃ answer, s.phase i = .finished answer) →
      LimitHolds limiter s → Meets (raceMachine τ limiter rateLimitKey requests opens)
        (AdmitsFew limiter τ rateLimitKey requests) { store := store } ops) := by
  have nobody (kind : LoginPhase → Bool) (idle : kind .started = false) :
      count kind ({ store := store } : LoginRace ι).phase = 0 :=
    count_eq_zero_iff.mpr fun _ => idle
  have start : FewAdmitted limiter ({ store := store } : LoginRace ι) := by
    refine ⟨?_, nobody _ rfl⟩
    rw [nobody _ rfl, nobody _ rfl]
    omega
  have counter : CounterHolds limiter rateLimitKey opens ({ store := store } : LoginRace ι) :=
    .inl ⟨nobody _ rfl, fresh⟩
  have prefixes := prefixes_iff_meets (P := FewAdmitted limiter)
    (I := fun s => FewAdmitted limiter s → CounterHolds limiter rateLimitKey opens s)
    (G := AdmitsFew limiter τ rateLimitKey requests)
    (fun s t op holds moved few => by
      obtain ⟨later, inside, effect⟩ := race_effect moved
      exact (holds (fewAdmitted_before effect few)).next later inside few effect)
    (fun s t op holds few moved => by
      obtain ⟨later, inside, effect⟩ := race_effect moved
      exact fewAdmitted_iff (holds few) later inside few effect)
    (fun _ => counter) start ran
  constructor
  · intro meets
    exact (prefixes.mpr meets ops [] s (List.append_nil ops).symm ran).limitHolds
  · intro done limit
    have few := limit.fewAdmitted done
    refine prefixes.mp fun before after t split ranBefore => ?_
    rw [split, run_append, ranBefore, Option.bind_some] at ran
    by_contra many
    have still := run_invariant (I := fun s => ¬ FewAdmitted limiter s)
      (fun s t op many moved few => many (fewAdmitted_before (race_effect moved).2.2 few)) many ran
    exact still few

end Steps

section Sample

instance [Platform] {ι τ : Type} [Fintype ι] [TokenLibrary τ] (limiter : RedisLoginRateLimiter)
    (rateLimitKey : Str) (requests : ι → LoginRequest) (s : LoginRace ι) (op : RaceStep ι) :
    Decidable (AdmitsFew limiter τ rateLimitKey requests s op) :=
  inferInstanceAs (Decidable (_ ∧ _))

/-- Two requests for an email that is not registered. -/
def strangers (_ : Fin 2) : LoginRequest where
  email := ['u']
  password := "password".toList
  password_length := samplePassword_length

def strangersMachine : Machine (LoginRace (Fin 2)) (RaceStep (Fin 2)) :=
  let _ := asciiPlatform
  let _ := openLibrary
  raceMachine (Claims × Str) strictLimiter ['k'] strangers 0

def strangersStep (i : Fin 2) : RaceStep (Fin 2) := ⟨i, 0, {}⟩

/-- One after the other: the second request is refused. -/
theorem login_limit_inSequence :
    ∃ s, strangersMachine.run { store := fun _ => none } (List.map strangersStep [0, 0, 0, 1]) =
        some s ∧ s.phase 1 = .finished (.error (.app rateLimitExceededError)) ∧
      LimitHolds strictLimiter s := by
  let _ := asciiPlatform
  let _ := openLibrary
  obtain ⟨s, ran⟩ : ∃ s, strangersMachine.run { store := fun _ => none }
      (List.map strangersStep [0, 0, 0, 1]) = some s := Option.isSome_iff_exists.mp (by decide)
  have refused : (strangersMachine.run { store := fun _ => none }
      (List.map strangersStep [0, 0, 0, 1])).map (fun s => s.phase 1) =
        some (.finished (.error (.app rateLimitExceededError))) := by decide
  rw [ran, Option.map_some, Option.some.injEq] at refused
  exact ⟨s, ran, refused, (login_limit_iff (τ := Claims × Str) strictLimiter (by decide) ['k']
    strangers 0 (fun _ => none) rfl (List.map strangersStep [0, 0, 0, 1]) s ran).1 (by decide)⟩

/-- Both requests are admitted before the first failure is counted. -/
theorem login_limit_fails :
    ¬ ∀ steps s, strangersMachine.run { store := fun _ => none } (List.map strangersStep steps) =
      some s → LimitHolds strictLimiter s := by
  intro limit
  obtain ⟨s, ran⟩ : ∃ s, strangersMachine.run { store := fun _ => none }
      (List.map strangersStep [0, 1, 0, 1, 0, 1]) = some s :=
    Option.isSome_iff_exists.mp (by decide)
  have failing : (strangersMachine.run { store := fun _ => none }
      (List.map strangersStep [0, 1, 0, 1, 0, 1])).map
        (fun s => count LoginPhase.failing s.phase) = some 2 := by decide
  rw [ran, Option.map_some, Option.some.injEq] at failing
  have bound := (limit [0, 1, 0, 1, 0, 1] s ran).1
  rw [failing] at bound
  exact absurd bound (by decide)

end Sample

end LogLens
