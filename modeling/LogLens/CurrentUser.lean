import LogLens.Auth

/-! `app/api/dependencies/auth.py`: who a bearer token stands for. -/

namespace LogLens

section CurrentUser
variable {τ : Type} [TokenLibrary τ] (settings : Settings)

/-- `decode_access_token`, by its `sub`; `none` stands for `ValueError`. -/
def decodeAccessToken (now : Timestamp) (token : τ) : Option Str :=
  (TokenLibrary.decode now token (accessSigningKey settings)).bind fun payload =>
    if payload.type = some (.str "access".toList) then isStr payload.sub else none

/-- `get_current_user`, over the lookup of `UserService.get_user_by_id` -/
def getCurrentUser (now : Timestamp) (token : τ) (getById : Nat → Option User) :
    Except AppError User :=
  match (decodeAccessToken settings now token).bind idOfStr with
  | none => .error authenticationError
  | some userId =>
    match getById userId with
    | none => .error authenticationError
    | some user =>
      if user.isActive then .ok user
      else .error { authenticationError with message := "Inactive user.".toList }

def requireAdminUser (currentUser : User) : Except AppError User :=
  if currentUser.role ≠ .admin then
    .error (authorizationError "Admin privileges required.")
  else .ok currentUser

variable {settings} {now expireAt : Timestamp}

theorem decodeAccessToken_access (subject : Str) :
    decodeAccessToken settings now (TokenLibrary.encode (accessClaims subject expireAt)
      (accessSigningKey settings) : τ) =
        if secondsOf now ≤ secondsOf expireAt then some subject else none := by
  unfold decodeAccessToken
  rw [TokenLibrary.decode_encode]
  by_cases valid : secondsOf now ≤ secondsOf expireAt
  · rw [if_pos ⟨rfl, valid⟩, if_pos valid]
    rfl
  · rw [if_neg fun both => valid both.2, if_neg valid]
    rfl

/-- A refresh token is no access token, with one secret for both kinds or two. -/
theorem decodeAccessToken_refresh (subject jti familyId : Str) :
    decodeAccessToken settings now (TokenLibrary.encode
      (refreshClaims subject jti familyId expireAt) (refreshSigningKey settings) : τ) = none := by
  unfold decodeAccessToken
  rw [TokenLibrary.decode_encode]
  split
  · rfl
  · rfl

variable {token : τ} {getById : Nat → Option User} {user : User}

theorem getCurrentUser_ok : getCurrentUser settings now token getById = .ok user ↔
    ∃ userId, (decodeAccessToken settings now token).bind idOfStr = some userId ∧
      getById userId = some user ∧ user.isActive = true := by
  unfold getCurrentUser
  cases (decodeAccessToken settings now token).bind idOfStr with
  | none => simp
  | some userId =>
    simp only [Option.some.injEq, exists_eq_left']
    cases getById userId with
    | none => simp
    | some found =>
      cases active : found.isActive with
      | true =>
        simp only [active, if_true, Except.ok.injEq, Option.some.injEq]
        exact ⟨fun same => ⟨same, same ▸ active⟩, fun both => both.1⟩
      | false =>
        simp only [active, Bool.false_eq_true, if_false, reduceCtorEq, Option.some.injEq,
          false_iff, not_and]
        rintro rfl isActive
        rw [active] at isActive
        cases isActive

theorem requireAdminUser_ok {currentUser : User} :
    requireAdminUser currentUser = .ok user ↔ currentUser = user ∧ user.role = .admin := by
  unfold requireAdminUser
  split
  · rename_i other
    simp only [reduceCtorEq, false_iff, not_and]
    rintro rfl
    exact other
  · rename_i admin
    rw [Except.ok.injEq, not_ne_iff] at *
    exact ⟨fun same => ⟨same, same ▸ admin⟩, And.left⟩

end CurrentUser

end LogLens
