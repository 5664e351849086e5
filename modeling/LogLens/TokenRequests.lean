import LogLens.Library.LabelledMachine
import LogLens.Library.RowVersions
import LogLens.RefreshHistory

/-! Concurrent requests of `AuthService`, each in its own session, statement by
statement at READ COMMITTED. A bulk UPDATE takes the matching rows of its
snapshot and then reaches them one by one: it waits for a locked row and skips
one that no longer matches. A request may be cut off between two statements. -/

namespace LogLens
open LabelledMachine RowVersions

inductive TokenRequest (τ : Type)
  /-- `login_user` from `_issue_token_pair` on -/
  | login (user : User) (readings : Readings) (uuids : Uuids)
  | refresh (refreshToken : τ) (readings : Readings) (uuids : Uuids)
  | logout (refreshToken : τ) (readings : Readings)
  | logoutAll (userId : Nat) (readings : Readings)

def TokenRequest.uuids {τ : Type} : TokenRequest τ → Option Uuids
  | .login _ _ uuids | .refresh _ _ uuids => some uuids
  | .logout .. | .logoutAll .. => none

inductive Sweep
  | family (familyId : Str)
  | user (userId : Nat)
  deriving DecidableEq

def Sweep.condition : Sweep → RefreshToken → Bool
  | .family familyId => RefreshToken.liveInFamily familyId
  | .user userId => RefreshToken.liveForUser userId

def Sweep.values (revokedAt : Timestamp) : Sweep → RefreshToken → RefreshToken
  | .family _ => RefreshToken.revokeInFamily revokedAt true
  | .user _ => RefreshToken.revokeForUser revokedAt

/-- What a commit makes of refresh tokens, named by their `jti_hash`. -/
inductive TokenEvent
  | issued (jtiHash : Str) (userId : Nat) (familyId : Str)
  | exchanged (jtiHash successor : Str)
  | loggedOut (jtiHash : Str)
  | swept (sweep : Sweep)
  deriving DecidableEq

abbrev TokenAnswer (τ : Type) := Except Raised (Option (TokenResponse τ))

/-- The statement a request executes next, with what it has loaded. -/
inductive TokenPhase (τ : Type)
  | start
  /-- `get_by_id` of the owner -/
  | selectUser (record : TokenRecord) (readings : Readings) (uuids : Uuids)
  /-- the UPDATE of `revoke_token` in a rotation -/
  | rotate (record : TokenRecord) (readings : Readings) (uuids : Uuids)
  | insert (jtiHash : Str) (row : RefreshToken) (event : TokenEvent) (pair : TokenResponse τ)
  /-- the UPDATE of `revoke_token` without a successor -/
  | revoke (record : TokenRecord) (revokedAt : Timestamp) (event : Option TokenEvent)
      (answer : TokenAnswer τ)
  | bulk (sweep : Sweep) (revokedAt : Timestamp) (answer : TokenAnswer τ)
  /-- a bulk UPDATE that has yet to reach some rows -/
  | sweep (sweep : Sweep) (revokedAt : Timestamp) (remaining : List Str) (answer : TokenAnswer τ)
  | commit (event : Option TokenEvent) (answer : TokenAnswer τ)
  | finished (answer : TokenAnswer τ)

structure TokenRun (τ ι : Type) where
  rows : Rows Str RefreshToken ι := Rows.empty
  users : List User := []
  phase : ι → TokenPhase τ := fun _ => .start
  /-- what was committed, the last event first -/
  history : List TokenEvent := []

inductive TokenOp (ι : Type)
  | step (i : ι)
  /-- a bulk UPDATE reaches a row -/
  | touch (i : ι) (jtiHash : Str)
  | abort (i : ι)
  | users (users : List User)

/-- A flush of a loaded row writes the columns that changed. -/
def flushToken (loaded changed row : RefreshToken) : RefreshToken :=
  { row with
    revokedAt := flushColumn loaded.revokedAt changed.revokedAt row.revokedAt
    replacedByJtiHash :=
      flushColumn loaded.replacedByJtiHash changed.replacedByJtiHash row.replacedByJtiHash }

section Machine
variable [Platform] {τ ι : Type} [TokenLibrary τ] [DecidableEq ι] (settings : Settings)
  (requests : ι → TokenRequest τ)

def TokenRun.snapshot (s : TokenRun τ ι) : AuthTables where
  users := s.users
  refreshTokens := s.rows.committed

def TokenRun.goto (s : TokenRun τ ι) (i : ι) (phase : TokenPhase τ) : TokenRun τ ι :=
  { s with phase := Function.update s.phase i phase }

def newPair (user : Nat) (familyId : Option Str) (accessAt : Timestamp) (readings : Readings)
    (uuids : Uuids) : RefreshToken × TokenResponse τ :=
  let access : τ × Int := createAccessToken settings accessAt (strOfId user)
  let refresh : RefreshTokenData τ :=
    createRefreshToken settings readings.sign uuids (strOfId user) familyId
  ({ userId := user, familyId := refresh.familyId, expiresAt := refresh.expiresAt },
    { accessToken := access.1
      refreshToken := refresh.token
      tokenType := "bearer".toList
      expiresInSeconds := access.2
      refreshExpiresInSeconds := refresh.expiresInSeconds })

/-- Up to and with the first SELECT of a request. -/
def TokenRun.begin (s : TokenRun τ ι) (request : TokenRequest τ) : TokenPhase τ :=
  match request with
  | .login user readings uuids =>
    let jtiHash := hashRefreshTokenIdentifier uuids.jti.text
    let new := newPair settings user.id none readings.check readings uuids
    .insert jtiHash new.1 (.issued jtiHash user.id new.1.familyId) new.2
  | .refresh refreshToken readings uuids =>
    match getRefreshTokenRecord settings readings.start refreshToken s.snapshot with
    | .error e => .finished (.error (.app e))
    | .ok record =>
      let refused : TokenAnswer τ := .error (.app authenticationError)
      if record.token.expiresAt ≤ readings.check then .revoke record readings.check none refused
      else if record.token.revokedAt.isSome then
        if record.token.replacedByJtiHash.isSome then
          .bulk (.family record.token.familyId) readings.check refused
        else .finished refused
      else .selectUser record readings uuids
  | .logout refreshToken readings =>
    match getRefreshTokenRecord settings readings.start refreshToken s.snapshot with
    | .error e => .finished (.error (.app e))
    | .ok record =>
      if record.token.revokedAt.isNone then
        .revoke record readings.check (some (.loggedOut record.jtiHash)) (.ok none)
      else .finished (.ok none)
  | .logoutAll userId readings => .bulk (.user userId) readings.check (.ok none)

def TokenRun.update (s : TokenRun τ ι) (i : ι) (jtiHash : Str)
    (values : RefreshToken → RefreshToken) (next : TokenPhase τ) : Option (TokenRun τ ι) :=
  (s.rows.committed jtiHash).bind fun row =>
    (s.rows.write i jtiHash (values row)).map fun rows => { s.goto i next with rows := rows }

def TokenRun.step (s : TokenRun τ ι) (i : ι) : Option (TokenRun τ ι) :=
  match s.phase i with
  | .start => some (s.goto i (s.begin settings (requests i)))
  | .selectUser record readings uuids =>
    match s.snapshot.getById record.userId with
    | none => some (s.goto i (.finished (.error (.app authenticationError))))
    | some user =>
      if user.isActive then some (s.goto i (.rotate record readings uuids))
      else some (s.goto i (.finished (.error (.app authenticationError))))
  | .rotate record readings uuids =>
    let nextJtiHash := hashRefreshTokenIdentifier uuids.jti.text
    let next := newPair settings record.userId (some record.familyId) readings.finish readings uuids
    s.update i record.jtiHash
      (flushToken record.token (record.token.revoke readings.check (some nextJtiHash)))
      (.insert nextJtiHash { next.1 with familyId := record.familyId }
        (.exchanged record.jtiHash nextJtiHash) next.2)
  | .insert jtiHash row event pair =>
    match s.rows.committed jtiHash with
    | some _ => some { s.goto i (.finished (.error integrityError)) with rows := s.rows.rollback i }
    | none =>
      (s.rows.write i jtiHash row).map fun rows =>
        { s.goto i (.commit (some event) (.ok (some pair))) with rows := rows }
  | .revoke record revokedAt event answer =>
    s.update i record.jtiHash (flushToken record.token (record.token.revoke revokedAt none))
      (.commit event answer)
  | .bulk sweep revokedAt answer =>
    some (s.goto i (.sweep sweep revokedAt (s.rows.matching sweep.condition) answer))
  | .sweep sweep _ remaining answer =>
    if remaining = [] then some (s.goto i (.commit (some (.swept sweep)) answer)) else none
  | .commit event answer =>
    some { s.goto i (.finished answer) with
      rows := s.rows.commit i
      history := event.toList ++ s.history }
  | .finished _ => none

/-- A bulk UPDATE reaches a row of its snapshot. -/
def TokenRun.touch (s : TokenRun τ ι) (i : ι) (jtiHash : Str) : Option (TokenRun τ ι) :=
  match s.phase i with
  | .sweep sweep revokedAt remaining answer =>
    if jtiHash ∈ remaining then
      let next := .sweep sweep revokedAt (remaining.erase jtiHash) answer
      if s.rows.lockedAgainst i jtiHash then none
      else if (s.rows.committed jtiHash).any sweep.condition then
        s.update i jtiHash (sweep.values revokedAt) next
      else some (s.goto i next)
    else none
  | _ => none

def TokenPhase.ended : TokenPhase τ → Bool
  | .finished _ => true
  | _ => false

def tokenMachine : Machine (TokenRun τ ι) (TokenOp ι) where
  step s
    | .step i => s.step settings requests i
    | .touch i jtiHash => s.touch i jtiHash
    | .abort i =>
      if (s.phase i).ended then none
      else some { s.goto i (.finished (.error (.other "aborted".toList))) with
        rows := s.rows.rollback i }
    | .users users => some { s with users := users }

end Machine

end LogLens
