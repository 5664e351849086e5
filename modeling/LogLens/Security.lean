import LogLens.Platform

/-! `app/core/security.py`. The JWT library, with its signing algorithm, and
argon2 are parameters. A token is a value of a type `τ`, such as text. -/

namespace LogLens

/-- `str(uuid4())` -/
structure Uuid where
  text : Str
  length : text.length = 36 := by decide
  deriving DecidableEq

theorem Uuid.text_ne_nil (u : Uuid) : u.text ≠ [] := by
  intro empty
  have length := u.length
  rw [empty] at length
  cases length

/-- The payload of a token. `jwt.encode` writes `exp` in whole seconds. -/
structure Claims where
  sub : Option (Json Str)
  type : Option (Json Str)
  jti : Option (Json Str) := none
  familyId : Option (Json Str) := none
  exp : Int
  deriving DecidableEq

def secondsOf (t : Timestamp) : Int := t / 1000000

class TokenLibrary (τ : Type) where
  encode : Claims → Str → τ
  /-- `jwt.decode` at a time; `none` when it raises `JWTError` -/
  decode : Timestamp → τ → Str → Option Claims
  /-- the key is the one of the signature, and `exp` is not before the present second -/
  decode_encode : ∀ now claims key key', decode now (encode claims key) key' =
    if key = key' ∧ secondsOf now ≤ claims.exp then some claims else none
  verifyPassword : Str → Str → Bool

structure Settings where
  jwtSecretKey : Str
  jwtAccessSecretKey : Option Str
  jwtRefreshSecretKey : Option Str
  jwtAccessTokenExpireMinutes : Int
  jwtRefreshTokenExpireMinutes : Int
  jwtSecretKey_length : 32 ≤ jwtSecretKey.length := by decide
  jwtAccessSecretKey_length : ∀ key ∈ jwtAccessSecretKey, 32 ≤ key.length := by decide
  jwtRefreshSecretKey_length : ∀ key ∈ jwtRefreshSecretKey, 32 ≤ key.length := by decide

/-- Python's `a or b`, for an optional text `a` -/
def strOr (a : Option Str) (b : Str) : Str :=
  match a with
  | some (c :: rest) => c :: rest
  | _ => b

theorem strOr_some {a b : Str} (nonempty : a ≠ []) : strOr (some a) b = a := by
  cases a with
  | nil => exact absurd rfl nonempty
  | cons => rfl

def accessSigningKey (settings : Settings) : Str :=
  strOr settings.jwtAccessSecretKey settings.jwtSecretKey

def refreshSigningKey (settings : Settings) : Str :=
  strOr settings.jwtRefreshSecretKey settings.jwtSecretKey

/-- `timedelta(minutes=minutes)` -/
def lifetime (minutes : Int) : Int := minutes * 60000000

def accessClaims (subject : Str) (expireAt : Timestamp) : Claims where
  sub := some (.str subject)
  type := some (.str "access".toList)
  exp := secondsOf expireAt

def refreshClaims (subject jti familyId : Str) (expireAt : Timestamp) : Claims where
  sub := some (.str subject)
  type := some (.str "refresh".toList)
  jti := some (.str jti)
  familyId := some (.str familyId)
  exp := secondsOf expireAt

structure RefreshTokenData (τ : Type) where
  token : τ
  jti : Str
  familyId : Str
  expiresAt : Timestamp
  expiresInSeconds : Int

/-- The random identifiers a request may draw. -/
structure Uuids where
  jti : Uuid
  familyId : Uuid

section Tokens
variable {τ : Type} [TokenLibrary τ] (settings : Settings)

def createAccessToken (now : Timestamp) (subject : Str) : τ × Int :=
  (TokenLibrary.encode
      (accessClaims subject (now + lifetime settings.jwtAccessTokenExpireMinutes))
      (accessSigningKey settings),
    settings.jwtAccessTokenExpireMinutes * 60)

def createRefreshToken (now : Timestamp) (uuids : Uuids) (subject : Str)
    (familyId : Option Str) : RefreshTokenData τ :=
  let expireAt := now + lifetime settings.jwtRefreshTokenExpireMinutes
  let tokenFamilyId := strOr familyId uuids.familyId.text
  { token := TokenLibrary.encode (refreshClaims subject uuids.jti.text tokenFamilyId expireAt)
      (refreshSigningKey settings)
    jti := uuids.jti.text
    familyId := tokenFamilyId
    expiresAt := expireAt
    expiresInSeconds := settings.jwtRefreshTokenExpireMinutes * 60 }

/-- `isinstance(value, str)` -/
def isStr : Option (Json Str) → Option Str
  | some (.str text) => some text
  | _ => none

structure RefreshPayload where
  sub : Str
  jti : Str
  familyId : Str
  deriving DecidableEq

/-- `none` stands for `ValueError`. -/
def decodeRefreshToken (now : Timestamp) (token : τ) : Option RefreshPayload :=
  (TokenLibrary.decode now token (refreshSigningKey settings)).bind fun payload =>
    if payload.type = some (.str "refresh".toList) then
      (isStr payload.sub).bind fun sub =>
        (isStr payload.jti).bind fun jti =>
          (isStr payload.familyId).map fun familyId => ⟨sub, jti, familyId⟩
    else none

def hashRefreshTokenIdentifier [Platform] (jti : Str) : Str := Platform.sha256Hex jti

theorem decodeRefreshToken_refresh (now expireAt : Timestamp) (subject jti familyId : Str) :
    decodeRefreshToken settings now (TokenLibrary.encode
      (refreshClaims subject jti familyId expireAt) (refreshSigningKey settings) : τ) =
        if secondsOf now ≤ secondsOf expireAt then some ⟨subject, jti, familyId⟩ else none := by
  unfold decodeRefreshToken
  rw [TokenLibrary.decode_encode]
  by_cases valid : secondsOf now ≤ secondsOf expireAt
  · rw [if_pos ⟨rfl, valid⟩, if_pos valid]
    rfl
  · rw [if_neg fun both => valid both.2, if_neg valid]
    rfl

/-- An access token is no refresh token, with one secret for both kinds or two. -/
theorem decodeRefreshToken_access (now expireAt : Timestamp) (subject : Str) :
    decodeRefreshToken settings now (TokenLibrary.encode
      (accessClaims subject expireAt) (accessSigningKey settings) : τ) = none := by
  unfold decodeRefreshToken
  rw [TokenLibrary.decode_encode]
  split
  · rfl
  · rfl

/-- A signature pins its payload down. -/
theorem encode_injective {claims claims' : Claims} {key : Str}
    (same : (TokenLibrary.encode claims key : τ) = TokenLibrary.encode claims' key) :
    claims = claims' := by
  let now := min claims.exp claims'.exp * 1000000
  have decoded := congrArg (fun token => TokenLibrary.decode now token key) same
  have second : secondsOf now = min claims.exp claims'.exp := by
    unfold now secondsOf
    exact Int.mul_ediv_cancel _ (by decide)
  have left : min claims.exp claims'.exp ≤ claims.exp := by omega
  have right : min claims.exp claims'.exp ≤ claims'.exp := by omega
  simpa only [TokenLibrary.decode_encode, second, true_and, if_pos left, if_pos right,
    Option.some.injEq] using decoded

end Tokens

end LogLens
