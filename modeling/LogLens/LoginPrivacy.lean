import LogLens.LoginThrottling
import LogLens.Library.Unwinding

/-! The login routes, over the service: what they answer to attempts without a correct
password does not depend on which accounts there are. `EmailStr` is a parameter. -/

namespace LogLens
open Unwinding

/-- `LoginRequest(email=email, password=password)`; `none` stands for `ValidationError`. -/
def LoginRequest.validate (emailStr : Str → Option Str) (email password : Str) :
    Option LoginRequest :=
  (emailStr email).bind fun email =>
    if length : 8 ≤ password.length ∧ password.length ≤ 128 then
      some { email := email, password := password, password_length := length }
    else none

structure LoginResponse (τ : Type) where
  token : TokenResponse τ

structure OAuth2TokenResponse (τ : Type) where
  accessToken : τ
  tokenType : Str
  expiresIn : Int
  refreshToken : τ

inductive LoginRoute
  | login | loginForAccessToken
  deriving DecidableEq

/-- A request to a login route: the form of `/token` has the email as `username`. -/
structure RouteAttempt where
  route : LoginRoute
  clientHost : Option Str
  email : Str
  password : Str
  readings : Readings
  uuids : Uuids

inductive LoginAnswer (τ : Type)
  /-- `RequestValidationError`, whose details name the fields of the request -/
  | invalid
  | raised (error : Raised)
  | login (response : LoginResponse τ)
  | token (response : OAuth2TokenResponse τ)

section Routes
variable [Platform] {τ ρ : Type} [TokenLibrary τ] (settings : Settings)
  (emailStr : Str → Option Str) (limiter : LoginRateLimiter ρ)

/-- `login_user` as the routes call it. -/
def RouteAttempt.loginUser (attempt : RouteAttempt) (payload : LoginRequest) (t : AuthTables)
    (store : ρ) : Except Raised (TokenResponse τ) × AuthTables × ρ :=
  LogLens.loginUser settings limiter payload
    (buildLoginRateLimitKey attempt.clientHost payload.email) attempt.readings attempt.uuids t store

def login (attempt : RouteAttempt) (t : AuthTables) (store : ρ) :
    LoginAnswer τ × AuthTables × ρ :=
  match LoginRequest.validate emailStr attempt.email attempt.password with
  | none => (.invalid, t, store)
  | some payload =>
    match attempt.loginUser settings limiter payload t store with
    | (.ok token, state) => (.login ⟨token⟩, state)
    | (.error e, state) => (.raised e, state)

def loginForAccessToken (attempt : RouteAttempt) (t : AuthTables) (store : ρ) :
    LoginAnswer τ × AuthTables × ρ :=
  match LoginRequest.validate emailStr attempt.email attempt.password with
  | none => (.raised (.app authenticationError), t, store)
  | some credentials =>
    match attempt.loginUser settings limiter credentials t store with
    | (.ok token, state) =>
      (.token
        { accessToken := token.accessToken
          tokenType := token.tokenType
          expiresIn := token.expiresInSeconds
          refreshToken := token.refreshToken }, state)
    | (.error e, state) => (.raised e, state)

/-- The tables and the store of the rate limiter, attempt after attempt. -/
def loginRoutes : Transducer (AuthTables × ρ) RouteAttempt (LoginAnswer τ) where
  step s attempt :=
    match attempt.route with
    | .login => login settings emailStr limiter attempt s.1 s.2
    | .loginForAccessToken => loginForAccessToken settings emailStr limiter attempt s.1 s.2

/-- The attempt has the email of an account and its password. -/
def PresentsPassword (τ : Type) [TokenLibrary τ] (users : List User) (attempt : RouteAttempt) :
    Prop :=
  ∃ payload ∈ LoginRequest.validate emailStr attempt.email attempt.password, ∃ user ∈ users,
    user.email = Platform.lower (strip payload.email) ∧
      TokenLibrary.verifyPassword τ payload.password user.passwordHash = true

end Routes

section Privacy
variable [Platform] {τ ρ : Type} [TokenLibrary τ] {settings : Settings}
  {emailStr : Str → Option Str} {limiter : LoginRateLimiter ρ}

/-- What an attempt without a correct password is told, and what it leaves of the store. -/
def refusal (limiter : LoginRateLimiter ρ) (rateLimitKey : Str) (readings : Readings) (store : ρ) :
    AppError × ρ :=
  match limiter.isAllowed readings.start rateLimitKey store with
  | (false, store) => (rateLimitExceededError, store)
  | (true, store) => (authenticationError, limiter.addFailure readings.check rateLimitKey store)

theorem loginUser_unverified {payload : LoginRequest} {t : AuthTables}
    (unverified : ∀ user ∈ t.users, user.email = Platform.lower (strip payload.email) →
      TokenLibrary.verifyPassword τ payload.password user.passwordHash = false)
    (rateLimitKey : Str) (readings : Readings) (uuids : Uuids) (store : ρ) :
    (loginUser settings limiter payload rateLimitKey readings uuids t store :
        Except Raised (TokenResponse τ) × AuthTables × ρ) =
      (.error (.app (refusal limiter rateLimitKey readings store).1), t,
        (refusal limiter rateLimitKey readings store).2) := by
  unfold loginUser refusal
  rcases limiter.isAllowed readings.start rateLimitKey store with ⟨allowed, store'⟩
  cases allowed with
  | false => rfl
  | true =>
    cases found : t.getByEmail (Platform.lower (strip payload.email)) with
    | none => rfl
    | some user =>
      have named : user.email = Platform.lower (strip payload.email) := by
        simpa using List.find?_some found
      have wrong := unverified user (List.mem_of_find?_eq_some found) named
      simp only [wrong, Bool.false_eq_true, if_false]

/-- An attempt without a correct password is answered by the request and the store alone,
and leaves the tables. -/
theorem loginRoutes_unpresented (attempt : RouteAttempt) (store : ρ) : ∃ answer store',
    ∀ t : AuthTables, ¬ PresentsPassword emailStr τ t.users attempt →
      (loginRoutes settings emailStr limiter : Transducer _ _ (LoginAnswer τ)).step (t, store)
        attempt = (answer, t, store') := by
  cases validated : LoginRequest.validate emailStr attempt.email attempt.password with
  | none =>
    cases route : attempt.route with
    | login =>
      exact ⟨.invalid, store, fun t _ => by simp only [loginRoutes, route, login, validated]⟩
    | loginForAccessToken =>
      refine ⟨.raised (.app authenticationError), store, fun t _ => ?_⟩
      simp only [loginRoutes, route, loginForAccessToken, validated]
  | some payload =>
    let key := buildLoginRateLimitKey attempt.clientHost payload.email
    refine ⟨.raised (.app (refusal limiter key attempt.readings store).1),
      (refusal limiter key attempt.readings store).2, fun t absent => ?_⟩
    have refused : attempt.loginUser settings limiter payload t store = (_, _, _) :=
      loginUser_unverified (fun user hu named => Bool.eq_false_iff.mpr fun verified =>
        absent ⟨payload, validated, user, hu, named, verified⟩) key attempt.readings attempt.uuids
          store
    cases route : attempt.route with
    | login => simp only [loginRoutes, route, login, validated, refused, key]
    | loginForAccessToken =>
      simp only [loginRoutes, route, loginForAccessToken, validated, refused, key]

/-- Attempts without a correct password are answered alike over any two user tables, throttle
alike, and leave the tables. -/
theorem login_reveals_no_account (settings : Settings) (emailStr : Str → Option Str)
    (limiter : LoginRateLimiter ρ) (attempts : List RouteAttempt) (t t' : AuthTables) (store : ρ)
    (unpresented : ∀ attempt ∈ attempts, ¬ PresentsPassword emailStr τ t.users attempt ∧
      ¬ PresentsPassword emailStr τ t'.users attempt) :
    let routes : Transducer _ _ (LoginAnswer τ) := loginRoutes settings emailStr limiter
    routes.answers (t, store) attempts = routes.answers (t', store) attempts ∧
      (routes.final (t, store) attempts).2 = (routes.final (t', store) attempts).2 ∧
      (routes.final (t, store) attempts).1 = t ∧ (routes.final (t', store) attempts).1 = t' := by
  intro routes
  have same_anywhere (attempt : RouteAttempt) (store : ρ) : ∃ answer store',
      ∀ t : AuthTables, ¬ PresentsPassword emailStr τ t.users attempt →
        routes.step (t, store) attempt = (answer, t, store') :=
    loginRoutes_unpresented attempt store
  obtain ⟨alike, same, left, right⟩ := Transducer.unwinding (M := routes) (N := routes)
    (R := fun s s' => s.2 = s'.2 ∧ s.1 = t ∧ s'.1 = t')
    (P := fun attempt => ¬ PresentsPassword emailStr τ t.users attempt ∧
      ¬ PresentsPassword emailStr τ t'.users attempt)
    (fun ⟨_, store⟩ ⟨_, _⟩ attempt ⟨same, left, right⟩ ⟨absent, absent'⟩ => by
      obtain ⟨answer, store', each⟩ := same_anywhere attempt store
      dsimp only at same left right
      subst same left right
      have here := each _ absent
      have there := each _ absent'
      change (routes.step _ _).1 = (routes.step _ _).1 ∧ _
      rw [here, there]
      exact ⟨rfl, rfl, rfl, rfl⟩) (s := (t, store)) (t := (t', store)) ⟨rfl, rfl, rfl⟩ unpresented
  exact ⟨alike, same, left, right⟩

end Privacy

/-- A wrong password for the email `u`, through each of the routes. -/
def wrongPassword (route : LoginRoute) : RouteAttempt where
  route := route
  clientHost := none
  email := ['u']
  password := "password".toList
  readings := readingsAt 0
  uuids := ⟨repeatedUuid 'a', repeatedUuid 'f'⟩

/-- The email is registered, or it is not. -/
theorem login_reveals_no_account_wrongPassword :
    let _ := asciiPlatform
    let _ := openLibrary
    let routes : Transducer _ _ (LoginAnswer (Claims × Str)) :=
      loginRoutes sharedSecret some strictLimiter.available
    let attempts := [wrongPassword .login, wrongPassword .loginForAccessToken]
    let registered : AuthTables :=
      { users := [{ id := 1, email := ['u'], passwordHash := "correct".toList }] }
    routes.answers (registered, fun _ => none) attempts =
        routes.answers ({}, fun _ => none) attempts ∧
      (routes.final (registered, fun _ => none) attempts).2 =
        (routes.final ({}, fun _ => none) attempts).2 ∧
      (routes.final (registered, fun _ => none) attempts).1 = registered ∧
      (routes.final ({}, fun _ => none) attempts).1 = {} := by
  intro _ _ routes attempts registered
  refine login_reveals_no_account sharedSecret some strictLimiter.available attempts registered {}
    (fun _ => none) fun attempt listed => ⟨?_, ?_⟩
  · rintro ⟨payload, validated, user, hu, -, verified⟩
    have validated' : LoginRequest.validate some attempt.email attempt.password =
        some { email := ['u'], password := "password".toList } := by
      simp only [attempts, List.mem_cons, List.not_mem_nil, or_false] at listed
      rcases listed with rfl | rfl <;> rfl
    obtain rfl := Option.some.inj (validated'.symm.trans validated)
    obtain rfl := List.mem_singleton.mp hu
    exact absurd (of_decide_eq_true verified) (by decide)
  · rintro ⟨payload, -, user, hu, -⟩
    exact absurd hu List.not_mem_nil

end LogLens
