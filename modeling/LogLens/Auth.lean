import LogLens.Errors
import LogLens.Models
import LogLens.Security
import Mathlib.Data.List.Nodup
import Mathlib.Logic.Function.Basic

/-! `AuthService` and the repositories under it, one request at a time. A request
that raises before its commit leaves the tables as they were. -/

namespace LogLens

structure RefreshToken where
  userId : Nat
  familyId : Str
  replacedByJtiHash : Option Str := none
  expiresAt : Timestamp
  revokedAt : Option Timestamp := none
  reuseDetectedAt : Option Timestamp := none
  deriving DecidableEq

structure AuthTables where
  users : List User := []
  nextUserId : Nat := 1
  /-- `refresh_tokens` by `jti_hash` -/
  refreshTokens : Str → Option RefreshToken := fun _ => none

/-- Ids come from a sequence. -/
structure AuthTables.UsersValid (t : AuthTables) : Prop where
  nodup : (t.users.map User.id).Nodup
  bound : ∀ user ∈ t.users, user.id < t.nextUserId

/-- What `revoke_token` makes of the loaded row. -/
def RefreshToken.revoke (revokedAt : Timestamp) (replacedByJtiHash : Option Str)
    (token : RefreshToken) : RefreshToken :=
  { token with revokedAt := some revokedAt, replacedByJtiHash := replacedByJtiHash }

/-- The WHERE clause of `revoke_family`. -/
def RefreshToken.liveInFamily (familyId : Str) (token : RefreshToken) : Bool :=
  token.familyId = familyId && token.revokedAt.isNone

/-- The values `revoke_family` assigns. -/
def RefreshToken.revokeInFamily (revokedAt : Timestamp) (markReuse : Bool)
    (token : RefreshToken) : RefreshToken :=
  { token with
    revokedAt := some revokedAt
    reuseDetectedAt := if markReuse then some revokedAt else token.reuseDetectedAt }

/-- The WHERE clause of `revoke_all_for_user`. -/
def RefreshToken.liveForUser (userId : Nat) (token : RefreshToken) : Bool :=
  token.userId = userId && token.revokedAt.isNone

/-- The value `revoke_all_for_user` assigns. -/
def RefreshToken.revokeForUser (revokedAt : Timestamp) (token : RefreshToken) : RefreshToken :=
  { token with revokedAt := some revokedAt }

namespace AuthTables
variable (t : AuthTables)

def getByEmail (email : Str) : Option User := t.users.find? fun user => user.email = email

def getById (userId : Nat) : Option User := t.users.find? fun user => user.id = userId

def createUser (email passwordHash : Str) : Option (User × AuthTables) :=
  if t.users.any fun user => user.email = email then none
  else
    let user := { id := t.nextUserId, email := email, passwordHash := passwordHash }
    some (user, { t with users := t.users ++ [user], nextUserId := t.nextUserId + 1 })

/-- Writes the row of a key. -/
def putToken (jtiHash : Str) (token : RefreshToken) : AuthTables :=
  { t with refreshTokens := Function.update t.refreshTokens jtiHash (some token) }

def createToken (jtiHash : Str) (token : RefreshToken) : Except Raised AuthTables :=
  match t.refreshTokens jtiHash with
  | some _ => .error integrityError
  | none => .ok (t.putToken jtiHash token)

def revokeToken (jtiHash : Str) (token : RefreshToken) (revokedAt : Timestamp)
    (replacedByJtiHash : Option Str) : AuthTables :=
  t.putToken jtiHash (token.revoke revokedAt replacedByJtiHash)

/-- UPDATE of the rows that satisfy a WHERE clause. -/
def updateTokens (condition : RefreshToken → Bool) (values : RefreshToken → RefreshToken) :
    AuthTables :=
  { t with
    refreshTokens := fun jtiHash => (t.refreshTokens jtiHash).map fun token =>
      if condition token then values token else token }

def revokeFamily (familyId : Str) (revokedAt : Timestamp) (markReuse : Bool) : AuthTables :=
  t.updateTokens (RefreshToken.liveInFamily familyId)
    (RefreshToken.revokeInFamily revokedAt markReuse)

def revokeAllForUser (userId : Nat) (revokedAt : Timestamp) : AuthTables :=
  t.updateTokens (RefreshToken.liveForUser userId) (RefreshToken.revokeForUser revokedAt)

variable {t} in
theorem getById_none {userId : Nat} (missing : t.getById userId = none) :
    ∀ user ∈ t.users, user.id ≠ userId := by
  intro user hu same
  exact List.find?_eq_none.mp missing user hu (decide_eq_true same)

variable {t} in
theorem getById_some {userId : Nat} {user : User}
    (found : t.getById userId = some user) : user ∈ t.users ∧ user.id = userId :=
  ⟨List.mem_of_find?_eq_some found, by simpa using List.find?_some found⟩

@[simp] theorem putToken_self (jtiHash : Str) (token : RefreshToken) :
    (t.putToken jtiHash token).refreshTokens jtiHash = some token :=
  Function.update_self _ _ _

theorem putToken_of_ne {jtiHash jtiHash' : Str} (other : jtiHash' ≠ jtiHash)
    (token : RefreshToken) :
    (t.putToken jtiHash token).refreshTokens jtiHash' = t.refreshTokens jtiHash' :=
  Function.update_of_ne other _ _

variable {t} in
/-- Writing a row that is there adds no row. -/
theorem putToken_present {jtiHash jtiHash' : Str} {row token row' : RefreshToken}
    (here : t.refreshTokens jtiHash = some row)
    (found : (t.putToken jtiHash token).refreshTokens jtiHash' = some row') :
    ∃ row, t.refreshTokens jtiHash' = some row := by
  by_cases own : jtiHash' = jtiHash
  · exact ⟨row, own ▸ here⟩
  · exact ⟨row', by rwa [t.putToken_of_ne own] at found⟩

theorem createToken_ok {jtiHash : Str} {token : RefreshToken} {t' : AuthTables}
    (created : t.createToken jtiHash token = .ok t') :
    t.refreshTokens jtiHash = none ∧ t' = t.putToken jtiHash token := by
  unfold createToken at created
  split at created <;> cases created
  exact ⟨‹_›, rfl⟩

theorem createToken_vacant {jtiHash : Str} (vacant : t.refreshTokens jtiHash = none)
    (token : RefreshToken) : t.createToken jtiHash token = .ok (t.putToken jtiHash token) := by
  unfold createToken
  rw [vacant]

variable {t} in
theorem updateTokens_present {jtiHash : Str} {condition : RefreshToken → Bool}
    {values : RefreshToken → RefreshToken} {row' : RefreshToken}
    (found : (t.updateTokens condition values).refreshTokens jtiHash = some row') :
    ∃ row, t.refreshTokens jtiHash = some row := by
  obtain ⟨row, here, -⟩ := Option.map_eq_some_iff.mp found
  exact ⟨row, here⟩

theorem updateTokens_some {jtiHash : Str} {token : RefreshToken}
    (here : t.refreshTokens jtiHash = some token) (condition : RefreshToken → Bool)
    (values : RefreshToken → RefreshToken) :
    (t.updateTokens condition values).refreshTokens jtiHash =
      some (if condition token then values token else token) := by
  simp only [updateTokens, here, Option.map_some]

end AuthTables

/-- `LoginRateLimiter`, over the state `ρ` of its store -/
structure LoginRateLimiter (ρ : Type) where
  isAllowed : Timestamp → Str → ρ → Bool × ρ
  addFailure : Timestamp → Str → ρ → ρ
  clear : Timestamp → Str → ρ → ρ

structure RegisterRequest where
  email : Str
  password : Str
  password_length : 8 ≤ password.length ∧ password.length ≤ 128 := by decide

structure LoginRequest where
  email : Str
  password : Str
  password_length : 8 ≤ password.length ∧ password.length ≤ 128 := by decide

structure TokenResponse (τ : Type) where
  accessToken : τ
  refreshToken : τ
  tokenType : Str
  expiresInSeconds : Int
  refreshExpiresInSeconds : Int

/-- The clock as one request reads it: when it decodes its token or asks the rate
limiter, when it checks or revokes rows or tells the rate limiter, when it signs a
refresh token, at its end. -/
structure Readings where
  start : Timestamp
  check : Timestamp
  sign : Timestamp
  finish : Timestamp
  ordered : start ≤ check ∧ check ≤ sign ∧ sign ≤ finish := by decide

/-- A request ends after the moments that precede it. -/
theorem Readings.later {readings : Readings} {now : Timestamp} (later : now ≤ readings.start) :
    now ≤ readings.check ∧ now ≤ readings.finish := by
  have ordered := readings.ordered
  unfold Timestamp at *
  omega

/-- What `_get_refresh_token_record` returns, with the key of the row. -/
structure TokenRecord where
  jtiHash : Str
  token : RefreshToken
  userId : Nat
  familyId : Str

section AuthService
variable [Platform] {τ ρ : Type} [TokenLibrary τ] (settings : Settings)

def getRefreshTokenRecord (now : Timestamp) (refreshToken : τ) (t : AuthTables) :
    Except AppError TokenRecord :=
  match decodeRefreshToken settings now refreshToken with
  | none => .error authenticationError
  | some payload =>
    match idOfStr payload.sub with
    | none => .error authenticationError
    | some userId =>
      let jtiHash := hashRefreshTokenIdentifier payload.jti
      match t.refreshTokens jtiHash with
      | none => .error authenticationError
      | some token =>
        if token.userId = userId then .ok ⟨jtiHash, token, userId, payload.familyId⟩
        else .error authenticationError

theorem getRefreshTokenRecord_ok {now : Timestamp} {refreshToken : τ} {t : AuthTables}
    {record : TokenRecord}
    (found : getRefreshTokenRecord settings now refreshToken t = .ok record) :
    t.refreshTokens record.jtiHash = some record.token ∧
      record.token.userId = record.userId := by
  unfold getRefreshTokenRecord at found
  simp only at found
  split at found
  · cases found
  · split at found
    · cases found
    · split at found
      · cases found
      · split at found
        · cases found
          exact ⟨‹_›, ‹_›⟩
        · cases found

/-- `hashed` is what `hash_password` made of the password. -/
def registerUser (payload : RegisterRequest) (hashed : Str) (t : AuthTables) :
    Except AppError User × AuthTables :=
  let normalizedEmail := Platform.lower (strip payload.email)
  match t.getByEmail normalizedEmail with
  | some _ => (.error duplicateEmailError, t)
  | none =>
    match t.createUser normalizedEmail hashed with
    | none => (.error duplicateEmailError, t)
    | some (user, t) => (.ok user, t)

/-- `_issue_token_pair` for a new family. -/
def issueTokenPair (user : User) (readings : Readings) (uuids : Uuids) (t : AuthTables) :
    Except Raised (TokenResponse τ) × AuthTables :=
  let access : τ × Int := createAccessToken settings readings.check (strOfId user.id)
  let refresh : RefreshTokenData τ :=
    createRefreshToken settings readings.sign uuids (strOfId user.id) none
  match t.createToken (hashRefreshTokenIdentifier refresh.jti)
      { userId := user.id, familyId := refresh.familyId, expiresAt := refresh.expiresAt } with
  | .error e => (.error e, t)
  | .ok t =>
    (.ok
      { accessToken := access.1
        refreshToken := refresh.token
        tokenType := "bearer".toList
        expiresInSeconds := access.2
        refreshExpiresInSeconds := refresh.expiresInSeconds }, t)

def loginUser (limiter : LoginRateLimiter ρ) (payload : LoginRequest) (rateLimitKey : Str)
    (readings : Readings) (uuids : Uuids) (t : AuthTables) (store : ρ) :
    Except Raised (TokenResponse τ) × AuthTables × ρ :=
  match limiter.isAllowed readings.start rateLimitKey store with
  | (false, store) => (.error (.app rateLimitExceededError), t, store)
  | (true, store) =>
    let failed : Except Raised (TokenResponse τ) × AuthTables × ρ :=
      (.error (.app authenticationError), t,
        limiter.addFailure readings.check rateLimitKey store)
    match t.getByEmail (Platform.lower (strip payload.email)) with
    | none => failed
    | some user =>
      if TokenLibrary.verifyPassword τ payload.password user.passwordHash then
        if user.isActive then
          let issued := issueTokenPair settings user readings uuids t
          (issued.1, issued.2, limiter.clear readings.check rateLimitKey store)
        else (.error (.app inactiveUserError), t, store)
      else failed

/-- The end of `refresh_session`, from `create_refresh_token` on. -/
def rotateToken (record : TokenRecord) (user : User) (readings : Readings) (uuids : Uuids)
    (t : AuthTables) : Except Raised (TokenResponse τ) × AuthTables :=
  let nextRefresh : RefreshTokenData τ :=
    createRefreshToken settings readings.sign uuids (strOfId user.id) (some record.familyId)
  let nextJtiHash := hashRefreshTokenIdentifier nextRefresh.jti
  let revoked := t.revokeToken record.jtiHash record.token readings.check (some nextJtiHash)
  match revoked.createToken nextJtiHash
      { userId := user.id, familyId := record.familyId, expiresAt := nextRefresh.expiresAt } with
  | .error e => (.error e, t)
  | .ok t =>
    let access : τ × Int := createAccessToken settings readings.finish (strOfId user.id)
    (.ok
      { accessToken := access.1
        refreshToken := nextRefresh.token
        tokenType := "bearer".toList
        expiresInSeconds := access.2
        refreshExpiresInSeconds := nextRefresh.expiresInSeconds }, t)

def refreshSession (refreshToken : τ) (readings : Readings) (uuids : Uuids) (t : AuthTables) :
    Except Raised (TokenResponse τ) × AuthTables :=
  match getRefreshTokenRecord settings readings.start refreshToken t with
  | .error e => (.error (.app e), t)
  | .ok record =>
    if record.token.expiresAt ≤ readings.check then
      (.error (.app authenticationError),
        t.revokeToken record.jtiHash record.token readings.check none)
    else if record.token.revokedAt.isSome then
      if record.token.replacedByJtiHash.isSome then
        (.error (.app authenticationError),
          t.revokeFamily record.token.familyId readings.check true)
      else (.error (.app authenticationError), t)
    else
      match t.getById record.userId with
      | none => (.error (.app authenticationError), t)
      | some user =>
        if user.isActive then rotateToken settings record user readings uuids t
        else (.error (.app authenticationError), t)

def logout (refreshToken : τ) (readings : Readings) (t : AuthTables) :
    Except AppError Unit × AuthTables :=
  match getRefreshTokenRecord settings readings.start refreshToken t with
  | .error e => (.error e, t)
  | .ok record =>
    if record.token.revokedAt.isNone then
      (.ok (), t.revokeToken record.jtiHash record.token readings.check none)
    else (.ok (), t)

omit [Platform] in
def logoutAll (userId : Nat) (readings : Readings) (t : AuthTables) : AuthTables :=
  t.revokeAllForUser userId readings.check

omit [Platform] in
/-- `UserService.update_user_status` -/
def updateUserStatus (userId : Nat) (isActive : Bool) (t : AuthTables) :
    Except AppError User × AuthTables :=
  match t.getById userId with
  | none => (.error (notFoundError "User"), t)
  | some user =>
    (.ok { user with isActive := isActive },
      { t with
        users := t.users.map fun row =>
          if row.id = user.id then { row with isActive := isActive } else row })

/-- The row `create_token` inserts for the user with a fresh `jti`. -/
def freshRow (userId : Nat) (familyId : Str) (now : Timestamp) :
    RefreshToken where
  userId := userId
  familyId := familyId
  expiresAt := now + lifetime settings.jwtRefreshTokenExpireMinutes

/-- A pair of an access token and the refresh token of a row. -/
def PairFor (jti : Str) (row : RefreshToken) (pair : TokenResponse τ) :
    Prop :=
  pair.refreshToken = TokenLibrary.encode
    (refreshClaims (strOfId row.userId) jti row.familyId row.expiresAt)
    (refreshSigningKey settings) ∧
  ∃ subject expireAt, pair.accessToken =
    TokenLibrary.encode (accessClaims subject expireAt) (accessSigningKey settings)

theorem issueTokenPair_vacant {t : AuthTables} {uuids : Uuids}
    (vacant : t.refreshTokens (hashRefreshTokenIdentifier uuids.jti.text) = none) (user : User)
    (readings : Readings) :
    ∃ pair : TokenResponse τ, issueTokenPair settings user readings uuids t =
        (.ok pair, t.putToken (hashRefreshTokenIdentifier uuids.jti.text)
          (freshRow settings user.id uuids.familyId.text readings.sign)) ∧
      PairFor settings uuids.jti.text
        (freshRow settings user.id uuids.familyId.text readings.sign) pair := by
  unfold issueTokenPair
  simp only [createRefreshToken, t.createToken_vacant vacant]
  exact ⟨_, rfl, rfl, _, _, rfl⟩

theorem rotateToken_vacant {t : AuthTables} {uuids : Uuids} (record : TokenRecord)
    (vacant : t.refreshTokens (hashRefreshTokenIdentifier uuids.jti.text) = none)
    (present : t.refreshTokens record.jtiHash ≠ none) (family : record.familyId ≠ [])
    (user : User) (readings : Readings) :
    ∃ pair : TokenResponse τ, rotateToken settings record user readings uuids t =
        (.ok pair, (t.revokeToken record.jtiHash record.token readings.check
            (some (hashRefreshTokenIdentifier uuids.jti.text))).putToken
          (hashRefreshTokenIdentifier uuids.jti.text)
          (freshRow settings user.id record.familyId readings.sign)) ∧
      PairFor settings uuids.jti.text (freshRow settings user.id record.familyId readings.sign)
        pair := by
  have apart : hashRefreshTokenIdentifier uuids.jti.text ≠ record.jtiHash := by
    intro same
    rw [same] at vacant
    exact present vacant
  have vacant' := (t.putToken_of_ne apart (record.token.revoke readings.check
    (some (hashRefreshTokenIdentifier uuids.jti.text)))).trans vacant
  unfold rotateToken
  simp only [createRefreshToken, strOr_some family, AuthTables.revokeToken,
    AuthTables.createToken_vacant _ vacant']
  exact ⟨_, rfl, rfl, _, _, rfl⟩

omit [Platform] in
theorem createUser_valid {t t' : AuthTables} {email passwordHash : Str} {user : User}
    (valid : t.UsersValid) (created : t.createUser email passwordHash = some (user, t')) :
    t'.UsersValid := by
  unfold AuthTables.createUser at created
  split at created
  · cases created
  cases created
  refine ⟨?_, ?_⟩
  · rw [List.map_append, List.map_singleton, ← List.concat_eq_append, List.nodup_concat]
    refine ⟨fun old => ?_, valid.nodup⟩
    obtain ⟨user, hu, same⟩ := List.mem_map.mp old
    exact Nat.ne_of_lt (valid.bound user hu) same
  · rw [List.forall_mem_append, List.forall_mem_singleton]
    exact ⟨fun user hu => Nat.lt_succ_of_lt (valid.bound user hu), Nat.lt_succ_self _⟩

omit [Platform] in
theorem createUser_tokens {t t' : AuthTables} {email passwordHash : Str} {user : User}
    (created : t.createUser email passwordHash = some (user, t')) :
    t'.refreshTokens = t.refreshTokens := by
  unfold AuthTables.createUser at created
  split at created <;> cases created
  rfl

theorem registerUser_valid {t : AuthTables} (valid : t.UsersValid) (payload : RegisterRequest)
    (hashed : Str) : (registerUser payload hashed t).2.UsersValid := by
  unfold registerUser
  simp only
  split
  · exact valid
  · split
    · exact valid
    · rename_i created
      exact createUser_valid valid created

theorem registerUser_tokens (payload : RegisterRequest) (hashed : Str) (t : AuthTables) :
    (registerUser payload hashed t).2.refreshTokens = t.refreshTokens := by
  unfold registerUser
  simp only
  split
  · rfl
  · split
    · rfl
    · rename_i created
      exact createUser_tokens created

omit [Platform] in
theorem updateUserStatus_valid {t : AuthTables} (valid : t.UsersValid) (userId : Nat)
    (isActive : Bool) : (updateUserStatus userId isActive t).2.UsersValid := by
  unfold updateUserStatus
  split
  · exact valid
  · rename_i user _
    have ids : User.id ∘ (fun row : User => if row.id = user.id then
        { row with isActive := isActive } else row) = User.id := by
      funext row
      rw [Function.comp_apply]
      split <;> rfl
    refine ⟨?_, ?_⟩
    · rw [List.map_map, ids]
      exact valid.nodup
    · intro row hr
      obtain ⟨old, ho, rfl⟩ := List.mem_map.mp hr
      have same := congrFun ids old
      rw [Function.comp_apply] at same
      rw [same]
      exact valid.bound old ho

omit [Platform] in
theorem updateUserStatus_tokens (userId : Nat) (isActive : Bool) (t : AuthTables) :
    (updateUserStatus userId isActive t).2.refreshTokens = t.refreshTokens := by
  unfold updateUserStatus
  split <;> rfl

end AuthService

end LogLens
