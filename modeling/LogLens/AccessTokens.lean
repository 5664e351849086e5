import LogLens.CurrentUser
import LogLens.RefreshHistory

/-! What the history of a run says about an access token. It stands for its user until it
expires, as long as the account is active: no logout and no revocation ends it. -/

namespace LogLens
open LabelledMachine

section Grants
variable {τ : Type}

/-- When a request signs an access token -/
def AuthOp.signedAt : AuthOp τ → Option Timestamp
  | .loginUser _ _ readings _ => some readings.check
  | .refreshSession _ readings _ => some readings.finish
  | .registerUser .. | .logout .. | .logoutAll .. | .updateUserStatus .. => none

/-- The answer to a request held an access token of the user, signed at a time. -/
structure Grants (e : AuthEntry τ) (token : τ) (userId : Nat) (signedAt : Timestamp) : Prop where
  signs : e.op.signedAt = some signedAt
  answer : ∃ pair, e.answer = .ok (some pair) ∧ pair.accessToken = token
  owner : ∃ d, e.issued = some d ∧ d.row.userId = userId

variable [Platform] [TokenLibrary τ] (settings : Settings)

/-- An access token of the user -/
def accessToken (userId : Nat) (signedAt : Timestamp) : τ :=
  TokenLibrary.encode
    (accessClaims (strOfId userId) (signedAt + lifetime settings.jwtAccessTokenExpireMinutes))
    (accessSigningKey settings)

/-- Where the tokens of an entry come from. -/
structure EntrySigned (e : AuthEntry τ) : Prop where
  grants : ∀ pair, e.answer = .ok (some pair) →
    ∃ userId signedAt, Grants e pair.accessToken userId signedAt
  signed : ∀ token userId signedAt, Grants e token userId signedAt →
    token = accessToken settings userId signedAt
  refresh : ∀ pair, e.answer = .ok (some pair) → ∃ subject jti familyId expireAt,
    pair.refreshToken = TokenLibrary.encode (refreshClaims subject jti familyId expireAt)
      (refreshSigningKey settings)

/-- A text that passes as a signed access token is one this run returned. -/
def UnforgedAccess {ρ : Type} (s : AuthRun τ ρ) (token : τ) : Prop :=
  ∀ now claims, TokenLibrary.decode now token (accessSigningKey settings) = some claims →
    ∃ e ∈ s.history, ∃ pair, e.answer = .ok (some pair) ∧
      (token = pair.accessToken ∨ token = pair.refreshToken)

/-- The tokens of a pair, and the row behind them. -/
structure SignedPair (uuids : Uuids) (signedAt : Timestamp) (userId : Nat)
    (pair : TokenResponse τ) (t : AuthTables) : Prop where
  access : pair.accessToken = accessToken settings userId signedAt
  refresh : ∃ subject jti familyId expireAt, pair.refreshToken = TokenLibrary.encode
    (refreshClaims subject jti familyId expireAt) (refreshSigningKey settings)
  row : ∃ row, t.refreshTokens (hashRefreshTokenIdentifier uuids.jti.text) = some row ∧
    row.userId = userId

variable {settings} {e : AuthEntry τ} {t t' : AuthTables} {pair : TokenResponse τ}
  {readings : Readings} {uuids : Uuids} {user : User}

theorem issueTokenPair_ok
    (issued : issueTokenPair settings user readings uuids t = (.ok pair, t')) :
    SignedPair settings uuids readings.check user.id pair t' := by
  unfold issueTokenPair at issued
  simp only at issued
  split at issued
  · cases issued
  · rename_i created
    cases issued
    obtain ⟨-, rfl⟩ := AuthTables.createToken_ok t created
    exact ⟨rfl, ⟨_, _, _, _, rfl⟩, _, AuthTables.putToken_self _ _ _, rfl⟩

theorem rotateToken_ok {record : TokenRecord}
    (rotated : rotateToken settings record user readings uuids t = (.ok pair, t')) :
    SignedPair settings uuids readings.finish user.id pair t' := by
  unfold rotateToken at rotated
  simp only at rotated
  split at rotated
  · cases rotated
  · rename_i created
    cases rotated
    obtain ⟨-, rfl⟩ := AuthTables.createToken_ok _ created
    exact ⟨rfl, ⟨_, _, _, _, rfl⟩, _, AuthTables.putToken_self _ _ _, rfl⟩

theorem loginUser_ok {ρ : Type} {limiter : LoginRateLimiter ρ} {payload : LoginRequest}
    {rateLimitKey : Str} {store store' : ρ}
    (answered : loginUser settings limiter payload rateLimitKey readings uuids t store =
      (.ok pair, t', store')) :
    ∃ userId, SignedPair settings uuids readings.check userId pair t' := by
  unfold loginUser at answered
  simp only at answered
  split at answered
  · cases answered
  · split at answered
    · cases answered
    · rename_i user _
      split at answered
      · split at answered
        · rw [Prod.mk.injEq, Prod.mk.injEq] at answered
          exact ⟨user.id, issueTokenPair_ok (Prod.ext answered.1 answered.2.1)⟩
        · cases answered
      · cases answered

theorem refreshSession_ok {refreshToken : τ}
    (answered : refreshSession settings refreshToken readings uuids t = (.ok pair, t')) :
    ∃ userId, SignedPair settings uuids readings.finish userId pair t' := by
  unfold refreshSession at answered
  split at answered
  · cases answered
  · split at answered
    · cases answered
    · split at answered
      · split at answered <;> cases answered
      · split at answered
        · cases answered
        · rename_i user _
          split at answered
          · exact ⟨user.id, rotateToken_ok answered⟩
          · cases answered

omit [Platform] in
theorem EntrySigned.of_noPair (noPair : ∀ pair, e.answer ≠ .ok (some pair)) :
    EntrySigned settings e where
  grants pair answer := absurd answer (noPair pair)
  signed _ _ _ grants := by
    obtain ⟨pair, answer, -⟩ := grants.answer
    exact absurd answer (noPair pair)
  refresh pair answer := absurd answer (noPair pair)

/-- The entry of a login or a refresh. -/
theorem entrySigned {op : AuthOp τ} {signedAt : Timestamp} (signs : op.signedAt = some signedAt)
    {answer : Except Raised (TokenResponse τ)}
    (answered : ∀ pair, answer = .ok pair →
      ∃ userId, SignedPair settings uuids signedAt userId pair t) :
    EntrySigned settings ⟨op, answer.map some, issuedBy answer uuids t⟩ := by
  cases answer with
  | error e => exact .of_noPair (by rintro pair ⟨⟩)
  | ok pair =>
    obtain ⟨userId, signed⟩ := answered pair rfl
    obtain ⟨row, here, owner⟩ := signed.row
    have drawn : issuedBy (.ok pair) uuids t =
        some ⟨pair.refreshToken, hashRefreshTokenIdentifier uuids.jti.text, row⟩ := by
      simp [issuedBy, here]
    refine ⟨?_, ?_, ?_⟩
    · rintro _ ⟨⟩
      exact ⟨userId, signedAt, signs, ⟨pair, rfl, rfl⟩, _, drawn, owner⟩
    · rintro token userId' signedAt' ⟨signs', ⟨_, ⟨⟩, same⟩, d, issued, owner'⟩
      change op.signedAt = some signedAt' at signs'
      change issuedBy (.ok pair) uuids t = some d at issued
      rw [signs, Option.some.injEq] at signs'
      rw [drawn, Option.some.injEq] at issued
      rw [← same, ← owner', ← issued, owner, ← signs', signed.access]
    · rintro _ ⟨⟩
      exact signed.refresh

end Grants

section Requests
variable [Platform] {τ ρ : Type} [TokenLibrary τ] {settings : Settings}
  {limiter : LoginRateLimiter ρ} {s : AuthRun τ ρ}

/-- The entries of a run are signed. -/
theorem entrySigned_apply (signed : ∀ e ∈ s.history, EntrySigned settings e) (op : AuthOp τ) :
    ∀ e ∈ (s.apply settings limiter op).history, EntrySigned settings e := by
  have noPair : ∀ {α : Type} {answer : Except AppError α} (pair : TokenResponse τ),
      (answer.map fun _ => (none : Option (TokenResponse τ))).mapError Raised.app ≠
        .ok (some pair) := by
    rintro α (_ | _) pair ⟨⟩
  cases op with
  | registerUser | logout | updateUserStatus =>
    refine List.forall_mem_cons.mpr ⟨.of_noPair noPair, signed⟩
  | logoutAll => exact List.forall_mem_cons.mpr ⟨.of_noPair (by rintro pair ⟨⟩), signed⟩
  | loginUser payload rateLimitKey readings uuids =>
    refine List.forall_mem_cons.mpr ⟨entrySigned rfl fun pair ok => ?_, signed⟩
    exact loginUser_ok (Prod.ext ok rfl)
  | refreshSession refreshToken readings uuids =>
    refine List.forall_mem_cons.mpr ⟨entrySigned rfl fun pair ok => ?_, signed⟩
    exact refreshSession_ok (Prod.ext ok rfl)

/-- The requests that write tokens leave `users` as it is. -/
theorem issueTokenPair_users (user : User) (readings : Readings) (uuids : Uuids)
    (t : AuthTables) :
    (issueTokenPair (τ := τ) settings user readings uuids t).2.users = t.users := by
  unfold issueTokenPair
  simp only
  split
  · rfl
  · rename_i created
    obtain ⟨-, rfl⟩ := AuthTables.createToken_ok t created
    rfl

theorem loginUser_users (payload : LoginRequest) (rateLimitKey : Str) (readings : Readings)
    (uuids : Uuids) (t : AuthTables) (store : ρ) :
    (loginUser (τ := τ) settings limiter payload rateLimitKey readings uuids t store).2.1.users =
      t.users := by
  unfold loginUser
  split
  · rfl
  · simp only
    split
    · rfl
    · split
      · split
        · exact issueTokenPair_users _ _ _ _
        · rfl
      · rfl

theorem rotateToken_users (record : TokenRecord) (user : User) (readings : Readings)
    (uuids : Uuids) (t : AuthTables) :
    (rotateToken (τ := τ) settings record user readings uuids t).2.users = t.users := by
  unfold rotateToken
  simp only
  split
  · rfl
  · rename_i created
    obtain ⟨-, rfl⟩ := AuthTables.createToken_ok _ created
    rfl

theorem refreshSession_users (refreshToken : τ) (readings : Readings) (uuids : Uuids)
    (t : AuthTables) :
    (refreshSession settings refreshToken readings uuids t).2.users = t.users := by
  unfold refreshSession
  split
  · rfl
  · split
    · rfl
    · split
      · split <;> rfl
      · split
        · rfl
        · split
          · exact rotateToken_users _ _ _ _ _
          · rfl

theorem logout_users (refreshToken : τ) (readings : Readings) (t : AuthTables) :
    (logout settings refreshToken readings t).2.users = t.users := by
  unfold logout
  split
  · rfl
  · split <;> rfl

omit [TokenLibrary τ] in
theorem registerUser_getById (payload : RegisterRequest) (hashed : Str) {t : AuthTables}
    {userId : Nat} {user : User} (found : t.getById userId = some user) :
    (registerUser payload hashed t).2.getById userId = some user := by
  unfold registerUser AuthTables.createUser
  simp only
  split
  · exact found
  · split
    · exact found
    · rename_i created
      split at created <;> cases created
      unfold AuthTables.getById at found ⊢
      rw [List.find?_append, found, Option.some_or]

omit [Platform] [TokenLibrary τ] in
theorem updateUserStatus_getById {t : AuthTables} {changed userId : Nat} {isActive : Bool}
    (other : userId ≠ changed) {user : User} (found : t.getById userId = some user) :
    (updateUserStatus changed isActive t).2.getById userId = some user := by
  unfold updateUserStatus
  split
  · exact found
  · rename_i target here
    obtain ⟨-, rfl⟩ := AuthTables.getById_some here
    obtain ⟨-, keyed⟩ := AuthTables.getById_some found
    have ids : (fun row : User => decide (row.id = userId)) ∘ (fun row : User =>
        if row.id = target.id then { row with isActive := isActive } else row) =
        fun row => decide (row.id = userId) := by
      funext row
      rw [Function.comp_apply]
      split <;> rfl
    unfold AuthTables.getById at found ⊢
    rw [List.find?_map, ids, found, Option.map_some, if_neg (keyed ▸ other)]

/-- Only a change of its status changes an account. -/
theorem apply_getById {op : AuthOp τ} {userId : Nat}
    (other : ∀ isActive, op ≠ .updateUserStatus userId isActive) {user : User}
    (found : s.tables.getById userId = some user) :
    (s.apply settings limiter op).tables.getById userId = some user := by
  unfold AuthTables.getById at found ⊢
  cases op with
  | registerUser payload hashed => exact registerUser_getById payload hashed found
  | loginUser =>
    rw [AuthRun.apply, loginUser_users]
    exact found
  | refreshSession =>
    rw [AuthRun.apply, refreshSession_users]
    exact found
  | logout =>
    rw [AuthRun.apply, logout_users]
    exact found
  | logoutAll => exact found
  | updateUserStatus changed isActive =>
    refine updateUserStatus_getById (fun same => ?_) found
    exact other isActive (same ▸ rfl)

/-- The token is accepted as one of the user. -/
def ActsAs (settings : Settings) (now : Timestamp) (token : τ) (s : AuthRun τ ρ) (userId : Nat) :
    Prop :=
  ∃ user, getCurrentUser settings now token s.tables.getById = .ok user ∧ user.id = userId

omit [Platform] in
theorem actsAs_iff {now : Timestamp} {token : τ} {userId : Nat} :
    ActsAs settings now token s userId ↔
      (decodeAccessToken settings now token).bind idOfStr = some userId ∧
      ∃ user, s.tables.getById userId = some user ∧ user.isActive = true := by
  unfold ActsAs
  constructor
  · rintro ⟨user, current, rfl⟩
    obtain ⟨userId, decoded, found, active⟩ := getCurrentUser_ok.mp current
    obtain ⟨-, rfl⟩ := AuthTables.getById_some found
    exact ⟨decoded, user, found, active⟩
  · rintro ⟨decoded, user, found, active⟩
    exact ⟨user, getCurrentUser_ok.mpr ⟨userId, decoded, found, active⟩,
      (AuthTables.getById_some found).2⟩

/-- An access token is accepted exactly if it was given to its user within its lifetime and the
account is active now. Every request but a change of the account's status leaves it accepted:
a logout, a logout of all sessions and a detected reuse do not end it. -/
theorem access_exact (settings : Settings) (limiter : LoginRateLimiter ρ) (s₀ s : AuthRun τ ρ)
    (initial : s₀.Initial) (ops : List (AuthOp τ))
    (ran : (authMachine settings limiter).run s₀ ops = some s) (now : Timestamp) (token : τ)
    (unforged : UnforgedAccess settings s token) (userId : Nat) :
    (ActsAs settings now token s userId ↔
      (∃ e ∈ s.history, ∃ signedAt, Grants e token userId signedAt ∧
        secondsOf now ≤ secondsOf (signedAt + lifetime settings.jwtAccessTokenExpireMinutes)) ∧
      ∃ user, s.tables.getById userId = some user ∧ user.isActive = true) ∧
    ∀ op : AuthOp τ, (∀ isActive, op ≠ .updateUserStatus userId isActive) →
      ActsAs settings now token s userId →
      ActsAs settings now token (s.apply settings limiter op) userId := by
  have signed : ∀ e ∈ s.history, EntrySigned settings e := by
    refine run_invariant (I := fun s : AuthRun τ ρ => ∀ e ∈ s.history, EntrySigned settings e)
      (fun s t op signed moved => ?_) ?_ ran
    · cases moved
      exact entrySigned_apply signed op
    · rw [initial.2.2.2]
      exact fun e he => absurd he List.not_mem_nil
  refine ⟨?_, fun op other => ?_⟩
  · rw [actsAs_iff]
    refine and_congr_left fun _ => ?_
    constructor
    · intro decoded
      obtain ⟨claims, accepted⟩ : ∃ claims,
          TokenLibrary.decode now token (accessSigningKey settings) = some claims := by
        unfold decodeAccessToken at decoded
        cases accepted : TokenLibrary.decode now token (accessSigningKey settings) with
        | none =>
          rw [accepted] at decoded
          cases decoded
        | some claims => exact ⟨claims, rfl⟩
      obtain ⟨e, he, pair, answer, rfl | rfl⟩ := unforged now claims accepted
      · obtain ⟨owner, signedAt, grants⟩ := (signed e he).grants pair answer
        have same := (signed e he).signed _ owner signedAt grants
        rw [same, accessToken, decodeAccessToken_access] at decoded
        split at decoded
        · rename_i valid
          rw [Option.bind_some, idOfStr_strOfId, Option.some.injEq] at decoded
          exact ⟨e, he, signedAt, decoded ▸ grants, valid⟩
        · cases decoded
      · obtain ⟨subject, jti, familyId, expireAt, same⟩ := (signed e he).refresh pair answer
        rw [same, decodeAccessToken_refresh] at decoded
        cases decoded
    · rintro ⟨e, he, signedAt, grants, valid⟩
      rw [(signed e he).signed token userId signedAt grants, accessToken,
        decodeAccessToken_access, if_pos valid, Option.bind_some, idOfStr_strOfId]
  · rw [actsAs_iff, actsAs_iff]
    rintro ⟨decoded, user, found, active⟩
    exact ⟨decoded, user, apply_getById other found, active⟩

end Requests

/-- A user who registers, logs in and logs out of all sessions. -/
def loggedOutAll : List (AuthOp (Claims × Str)) :=
  rotatedOnce.take 2 ++ [.logoutAll 1 (readingsAt 1)]

/-- The access token of the first user, signed at 0. -/
def firstAccess : Claims × Str := (accessClaims (strOfId 1) (lifetime 15), List.replicate 32 'k')

/-- The access token of the session is still accepted. -/
theorem access_exact_loggedOutAll :
    let _ := asciiPlatform
    let _ := openLibrary
    ∃ s, (authMachine sharedSecret noLimiter).run { tables := {}, store := (), now := 0 }
        loggedOutAll = some s ∧ ActsAs sharedSecret 2 firstAccess s 1 ∧
      ∃ e ∈ s.history, ∃ signedAt, Grants e firstAccess 1 signedAt := by
  intro _ _
  obtain ⟨s, ran⟩ : ∃ s, (authMachine sharedSecret noLimiter).run
      { tables := {}, store := (), now := 0 } loggedOutAll = some s := ⟨_, rfl⟩
  have initial : AuthRun.Initial ({ tables := {}, store := (), now := 0 } :
      AuthRun (Claims × Str) Unit) := ⟨⟨List.nodup_nil, by rintro _ ⟨⟩⟩, rfl, rfl, rfl⟩
  have unforged : UnforgedAccess sharedSecret s firstAccess := by
    cases ran
    exact fun _ _ _ => ⟨_, List.mem_cons_of_mem _ List.mem_cons_self, _, rfl, .inl rfl⟩
  have accepted : ActsAs sharedSecret 2 firstAccess s 1 := by
    cases ran
    exact ⟨_, rfl, rfl⟩
  obtain ⟨⟨e, he, signedAt, grants, -⟩, -⟩ := (access_exact sharedSecret noLimiter _ s initial
    loggedOutAll ran 2 firstAccess unforged 1).1.mp accepted
  exact ⟨s, ran, accepted, e, he, signedAt, grants⟩

end LogLens
