import LogLens.Auth
import LogLens.Library.LabelledMachine
import Mathlib.Data.List.Nodup

/-! Runs of `AuthService`, one request at a time, and what the history of a run
says about a refresh token. The history lists the requests with their answers,
the last one first. -/

namespace LogLens
open LabelledMachine

inductive AuthOp (τ : Type)
  | registerUser (payload : RegisterRequest) (hashed : Str)
  | loginUser (payload : LoginRequest) (rateLimitKey : Str) (readings : Readings) (uuids : Uuids)
  | refreshSession (refreshToken : τ) (readings : Readings) (uuids : Uuids)
  | logout (refreshToken : τ) (readings : Readings)
  | logoutAll (userId : Nat) (readings : Readings)
  | updateUserStatus (userId : Nat) (isActive : Bool)

/-- A refresh token returned to a client, with the row inserted for it. -/
structure IssuedToken (τ : Type) where
  token : τ
  jtiHash : Str
  row : RefreshToken

/-- A request; its error or the tokens it returned, if it returns any. -/
structure AuthEntry (τ : Type) where
  op : AuthOp τ
  answer : Except Raised (Option (TokenResponse τ))
  issued : Option (IssuedToken τ)

structure AuthRun (τ ρ : Type) where
  tables : AuthTables
  store : ρ
  /-- the last reading of the clock -/
  now : Timestamp
  jtis : List Str := []
  history : List (AuthEntry τ) := []

section Machine
variable [Platform] {τ ρ : Type} [TokenLibrary τ] (settings : Settings)
  (limiter : LoginRateLimiter ρ)

def issuedBy (answer : Except Raised (TokenResponse τ)) (uuids : Uuids) (t : AuthTables) :
    Option (IssuedToken τ) :=
  let jtiHash := hashRefreshTokenIdentifier uuids.jti.text
  match answer with
  | .ok pair => (t.refreshTokens jtiHash).map fun row => ⟨pair.refreshToken, jtiHash, row⟩
  | .error _ => none

def AuthRun.apply (s : AuthRun τ ρ) (op : AuthOp τ) : AuthRun τ ρ :=
  match op with
  | .registerUser payload hashed =>
    let done := registerUser payload hashed s.tables
    { s with
      tables := done.2
      history := ⟨op, (done.1.map fun _ => none).mapError .app, none⟩ :: s.history }
  | .loginUser payload rateLimitKey readings uuids =>
    let done := loginUser settings limiter payload rateLimitKey readings uuids s.tables s.store
    { tables := done.2.1
      store := done.2.2
      now := readings.finish
      jtis := uuids.jti.text :: s.jtis
      history := ⟨op, done.1.map some, issuedBy done.1 uuids done.2.1⟩ :: s.history }
  | .refreshSession refreshToken readings uuids =>
    let done := refreshSession settings refreshToken readings uuids s.tables
    { s with
      tables := done.2
      now := readings.finish
      jtis := uuids.jti.text :: s.jtis
      history := ⟨op, done.1.map some, issuedBy done.1 uuids done.2⟩ :: s.history }
  | .logout refreshToken readings =>
    let done := logout settings refreshToken readings s.tables
    { s with
      tables := done.2
      now := readings.finish
      history := ⟨op, (done.1.map fun _ => none).mapError .app, none⟩ :: s.history }
  | .logoutAll userId readings =>
    { s with
      tables := logoutAll userId readings s.tables
      now := readings.finish
      history := ⟨op, .ok none, none⟩ :: s.history }
  | .updateUserStatus userId isActive =>
    let done := updateUserStatus userId isActive s.tables
    { s with
      tables := done.2
      history := ⟨op, (done.1.map fun _ => none).mapError .app, none⟩ :: s.history }

def authMachine : Machine (AuthRun τ ρ) (AuthOp τ) where
  step s op := some (s.apply settings limiter op)

/-- No refresh token yet; users may exist. -/
def AuthRun.Initial (s : AuthRun τ ρ) : Prop :=
  s.tables.UsersValid ∧ s.tables.refreshTokens = (fun _ => none) ∧ s.jtis = [] ∧ s.history = []

/-- A text that passes as a signed refresh token is one this run returned. -/
def Unforged (s : AuthRun τ ρ) (token : τ) : Prop :=
  ∀ now claims, TokenLibrary.decode now token (refreshSigningKey settings) = some claims →
    ∃ e ∈ s.history, ∃ pair, e.answer = .ok (some pair) ∧
      (token = pair.accessToken ∨ token = pair.refreshToken)

/-- `uuid4` has not been drawn before, and SHA-256 keeps it apart from those drawn. -/
def FreshJti (s : AuthRun τ ρ) (uuids : Uuids) : Prop :=
  ∀ jti ∈ s.jtis, hashRefreshTokenIdentifier jti ≠ hashRefreshTokenIdentifier uuids.jti.text

omit [TokenLibrary τ] in
instance (s : AuthRun τ ρ) (uuids : Uuids) : Decidable (FreshJti s uuids) := by
  unfold FreshJti
  infer_instance

/-- The clock does not run backwards, identifiers are fresh and signatures unforged. -/
def Assumed (s : AuthRun τ ρ) : AuthOp τ → Prop
  | .registerUser .. | .updateUserStatus .. => True
  | .loginUser _ _ readings uuids => s.now ≤ readings.start ∧ FreshJti s uuids
  | .refreshSession token readings uuids =>
    s.now ≤ readings.start ∧ FreshJti s uuids ∧ Unforged settings s token
  | .logout token readings => s.now ≤ readings.start ∧ Unforged settings s token
  | .logoutAll _ readings => s.now ≤ readings.start

end Machine

section History
variable {τ : Type}

def AuthEntry.Succeeded (e : AuthEntry τ) : Prop := ∃ answer, e.answer = .ok answer

def Refreshed (token : τ) (e : AuthEntry τ) : Prop :=
  (∃ readings uuids, e.op = .refreshSession token readings uuids) ∧ e.Succeeded

def LoggedOut (token : τ) (e : AuthEntry τ) : Prop :=
  (∃ readings, e.op = .logout token readings) ∧ e.Succeeded

def Issued (d : IssuedToken τ) (history : List (AuthEntry τ)) : Prop :=
  ∃ e ∈ history, e.issued = some d

/-- The requests that end a refresh token, each after a history. -/
inductive Ends (history : List (AuthEntry τ)) (d : IssuedToken τ) : AuthEntry τ → Prop
  | refreshed {e : AuthEntry τ} : Refreshed d.token e → Ends history d e
  | loggedOut {e : AuthEntry τ} : LoggedOut d.token e → Ends history d e
  | loggedOutAll {e : AuthEntry τ} (readings : Readings) :
    e.op = .logoutAll d.row.userId readings → Ends history d e
  /-- an already-rotated token of the family is presented before it expires -/
  | reused {e : AuthEntry τ} {d' : IssuedToken τ} {readings : Readings} {uuids : Uuids} :
    e.op = .refreshSession d'.token readings uuids → Issued d' history →
    (∃ earlier ∈ history, Refreshed d'.token earlier) → d'.row.familyId = d.row.familyId →
    readings.check < d'.row.expiresAt → Ends history d e

/-- The token was issued, and nothing since has ended it. -/
inductive Standing (d : IssuedToken τ) : List (AuthEntry τ) → Prop
  | issued {e : AuthEntry τ} {history : List (AuthEntry τ)} :
    e.issued = some d → Standing d (e :: history)
  | since {e : AuthEntry τ} {history : List (AuthEntry τ)} :
    Standing d history → ¬ Ends history d e → Standing d (e :: history)

theorem Standing.was_issued {d : IssuedToken τ} {history : List (AuthEntry τ)}
    (standing : Standing d history) : Issued d history := by
  induction standing with
  | issued here => exact ⟨_, List.mem_cons_self, here⟩
  | since _ _ ih =>
    obtain ⟨e, he, here⟩ := ih
    exact ⟨e, List.mem_cons_of_mem _ he, here⟩

theorem Issued.cons {d : IssuedToken τ} {history : List (AuthEntry τ)} (e : AuthEntry τ)
    (issued : Issued d history) : Issued d (e :: history) := by
  obtain ⟨other, ho, here⟩ := issued
  exact ⟨other, List.mem_cons_of_mem _ ho, here⟩

theorem issued_cons {d : IssuedToken τ} {e : AuthEntry τ} {history : List (AuthEntry τ)} :
    Issued d (e :: history) ↔ e.issued = some d ∨ Issued d history := by
  unfold Issued
  rw [List.exists_mem_cons_iff]

theorem standing_cons {d : IssuedToken τ} {e : AuthEntry τ} {history : List (AuthEntry τ)}
    (old : e.issued ≠ some d) :
    Standing d (e :: history) ↔ Standing d history ∧ ¬ Ends history d e := by
  constructor
  · intro standing
    cases standing with
    | issued here => exact absurd here old
    | since standing kept => exact ⟨standing, kept⟩
  · exact fun h => .since h.1 h.2

theorem not_refreshed_of_ne {e : AuthEntry τ} {token other : τ} {readings : Readings}
    {uuids : Uuids} (op : e.op = .refreshSession token readings uuids) (different : other ≠ token) :
    ¬ Refreshed other e := by
  rintro ⟨⟨readings', uuids', op'⟩, -⟩
  rw [op] at op'
  exact different (AuthOp.refreshSession.inj op').1.symm

/-- A refresh of another token, or one that fails, ends no token it does not find rotated. -/
theorem not_ends_refresh {history : List (AuthEntry τ)} {d : IssuedToken τ} {e : AuthEntry τ}
    {token : τ} {readings : Readings} {uuids : Uuids}
    (op : e.op = .refreshSession token readings uuids) (other : ¬ Refreshed d.token e)
    (noReuse : ∀ d', Issued d' history → d'.token = token →
      (∃ earlier ∈ history, Refreshed d'.token earlier) → d'.row.familyId = d.row.familyId →
      d'.row.expiresAt ≤ readings.check) : ¬ Ends history d e := by
  intro ends
  cases ends with
  | refreshed refreshed => exact other refreshed
  | loggedOut loggedOut =>
    obtain ⟨⟨readings', op'⟩, -⟩ := loggedOut
    rw [op] at op'
    cases op'
  | loggedOutAll _ op' =>
    rw [op] at op'
    cases op'
  | reused op' issued rotated family valid =>
    rw [op] at op'
    cases op'
    exact absurd valid (Int.not_lt.mpr (noReuse _ issued rfl rotated family))

/-- Requests that touch no refresh token issued before. -/
def AuthOp.inert : AuthOp τ → Bool
  | .registerUser .. | .loginUser .. | .updateUserStatus .. => true
  | .refreshSession .. | .logout .. | .logoutAll .. => false

theorem not_refreshed_inert {e : AuthEntry τ} (inert : e.op.inert = true) (token : τ) :
    ¬ Refreshed token e := by
  rintro ⟨⟨readings, uuids, op⟩, -⟩
  rw [op] at inert
  cases inert

theorem not_ends_inert {history : List (AuthEntry τ)} {d : IssuedToken τ} {e : AuthEntry τ}
    (inert : e.op.inert = true) : ¬ Ends history d e := by
  intro ends
  cases ends with
  | refreshed refreshed => exact not_refreshed_inert inert _ refreshed
  | loggedOut loggedOut =>
    obtain ⟨⟨readings, op⟩, -⟩ := loggedOut
    rw [op] at inert
    cases inert
  | loggedOutAll _ op | reused op =>
    rw [op] at inert
    cases inert

/-- A logout of another token, or one that fails. -/
theorem not_ends_logout {history : List (AuthEntry τ)} {d : IssuedToken τ} {e : AuthEntry τ}
    {token : τ} {readings : Readings} (op : e.op = .logout token readings)
    (other : e.Succeeded → d.token ≠ token) : ¬ Ends history d e := by
  intro ends
  cases ends with
  | refreshed refreshed =>
    obtain ⟨⟨_, _, op'⟩, -⟩ := refreshed
    rw [op] at op'
    cases op'
  | loggedOut loggedOut =>
    obtain ⟨⟨_, op'⟩, succeeded⟩ := loggedOut
    rw [op] at op'
    exact other succeeded (AuthOp.logout.inj op').1.symm
  | loggedOutAll _ op' | reused op' =>
    rw [op] at op'
    cases op'

theorem not_ends_logoutAll {history : List (AuthEntry τ)} {d : IssuedToken τ} {e : AuthEntry τ}
    {userId : Nat} {readings : Readings} (op : e.op = .logoutAll userId readings)
    (other : d.row.userId ≠ userId) : ¬ Ends history d e := by
  intro ends
  cases ends with
  | refreshed refreshed =>
    obtain ⟨⟨_, _, op'⟩, -⟩ := refreshed
    rw [op] at op'
    cases op'
  | loggedOut loggedOut =>
    obtain ⟨⟨_, op'⟩, -⟩ := loggedOut
    rw [op] at op'
    cases op'
  | loggedOutAll _ op' =>
    rw [op] at op'
    exact other (AuthOp.logoutAll.inj op').1.symm
  | reused op' =>
    rw [op] at op'
    cases op'

/-- What the history says about the row of a token. -/
structure RowState (now : Timestamp) (history : List (AuthEntry τ)) (d : IssuedToken τ)
    (row : RefreshToken) : Prop where
  userId : row.userId = d.row.userId
  familyId : row.familyId = d.row.familyId
  expiresAt : row.expiresAt = d.row.expiresAt
  live : row.revokedAt = none → Standing d history
  standing : Standing d history → row.revokedAt = none ∨ row.expiresAt ≤ now
  replaced : row.replacedByJtiHash ≠ none →
    row.revokedAt ≠ none ∧ ∃ e ∈ history, Refreshed d.token e
  refreshed : (∃ e ∈ history, Refreshed d.token e) →
    row.revokedAt ≠ none ∧ (row.replacedByJtiHash ≠ none ∨ row.expiresAt ≤ now)

/-- What a request can do to the row of a token issued before it. -/
inductive RowChange (now : Timestamp) (history : List (AuthEntry τ)) (e : AuthEntry τ)
    (d : IssuedToken τ) (row : RefreshToken) : RefreshToken → Prop
  | kept : ¬ Refreshed d.token e → (row.revokedAt = none → ¬ Ends history d e) →
    RowChange now history e d row row
  | ended {revokedAt reuseDetectedAt : Option Timestamp} : ¬ Refreshed d.token e →
    Ends history d e → revokedAt ≠ none → RowChange now history e d row
      { row with revokedAt := revokedAt, reuseDetectedAt := reuseDetectedAt }
  | rotated {revokedAt : Timestamp} {successor : Str} : Refreshed d.token e →
    RowChange now history e d row (row.revoke revokedAt (some successor))
  | expired {revokedAt : Timestamp} : ¬ Refreshed d.token e → row.expiresAt ≤ now →
    RowChange now history e d row (row.revoke revokedAt none)

theorem exists_mem_cons_refreshed {token : τ} {e : AuthEntry τ} {history : List (AuthEntry τ)}
    (other : ¬ Refreshed token e) (refreshed : ∃ earlier ∈ e :: history, Refreshed token earlier) :
    ∃ earlier ∈ history, Refreshed token earlier := by
  obtain ⟨earlier, he, here⟩ := refreshed
  cases List.mem_cons.mp he with
  | inl same => exact absurd (same ▸ here) other
  | inr older => exact ⟨earlier, older, here⟩

theorem RowState.change {now now' : Timestamp} {history : List (AuthEntry τ)} {e : AuthEntry τ}
    {d : IssuedToken τ} {row row' : RefreshToken} (holds : RowState now history d row)
    (later : now ≤ now') (old : e.issued ≠ some d) (change : RowChange now' history e d row row') :
    RowState now' (e :: history) d row' := by
  have mono {refreshed : Prop} (h : refreshed ∨ row.expiresAt ≤ now) :
      refreshed ∨ row.expiresAt ≤ now' := h.imp_right fun h => Int.le_trans h later
  have older (h : ∃ earlier ∈ history, Refreshed d.token earlier) :
      ∃ earlier ∈ e :: history, Refreshed d.token earlier := by
    obtain ⟨earlier, he, here⟩ := h
    exact ⟨earlier, List.mem_cons_of_mem _ he, here⟩
  cases change with
  | kept other unended =>
    refine { holds with live := ?_, standing := ?_, replaced := ?_, refreshed := ?_ }
    · intro none
      exact .since (holds.live none) (unended none)
    · intro standing
      exact mono (holds.standing ((standing_cons old).mp standing).1)
    · intro replaced
      exact (holds.replaced replaced).imp_right older
    · intro refreshed
      exact (holds.refreshed (exists_mem_cons_refreshed other refreshed)).imp_right mono
  | ended other ends revoked =>
    refine { holds with live := ?_, standing := ?_, replaced := ?_, refreshed := ?_ }
    · intro none
      exact absurd none revoked
    · intro standing
      exact absurd ends ((standing_cons old).mp standing).2
    · intro replaced
      exact ⟨revoked, older (holds.replaced replaced).2⟩
    · intro refreshed
      exact ⟨revoked, mono (holds.refreshed (exists_mem_cons_refreshed other refreshed)).2⟩
  | rotated refreshed =>
    refine { holds with live := ?_, standing := ?_, replaced := ?_, refreshed := ?_ }
    · rintro ⟨⟩
    · intro standing
      exact absurd (.refreshed refreshed) ((standing_cons old).mp standing).2
    · intro _
      exact ⟨by rintro ⟨⟩, e, List.mem_cons_self, refreshed⟩
    · intro _
      exact ⟨by rintro ⟨⟩, .inl (by rintro ⟨⟩)⟩
  | expired other expired =>
    refine { holds with live := ?_, standing := ?_, replaced := ?_, refreshed := ?_ }
    · rintro ⟨⟩
    · intro _
      exact .inr expired
    · intro replaced
      exact absurd rfl replaced
    · intro _
      exact ⟨by rintro ⟨⟩, .inr expired⟩

/-- The row of a token just issued. -/
theorem rowState_issued {now : Timestamp} {history : List (AuthEntry τ)} {e : AuthEntry τ}
    {d : IssuedToken τ} (here : e.issued = some d) (fresh : d.row.revokedAt = none)
    (first : d.row.replacedByJtiHash = none)
    (unused : ∀ earlier ∈ e :: history, ¬ Refreshed d.token earlier) :
    RowState now (e :: history) d d.row where
  userId := rfl
  familyId := rfl
  expiresAt := rfl
  live _ := .issued here
  standing _ := .inl fresh
  replaced replaced := absurd first replaced
  refreshed := by
    rintro ⟨earlier, he, refreshed⟩
    exact absurd refreshed (unused earlier he)

end History

section Invariant
variable [Platform] {τ ρ : Type} [TokenLibrary τ] {settings : Settings}

/-- A token is the signature over its row, which it names by its `jti`. -/
def SignedFor (settings : Settings) (jtis : List Str) (d : IssuedToken τ) : Prop :=
  d.row.familyId ≠ [] ∧ ∃ jti ∈ jtis, d.jtiHash = hashRefreshTokenIdentifier jti ∧
    d.token = TokenLibrary.encode
      (refreshClaims (strOfId d.row.userId) jti d.row.familyId d.row.expiresAt)
      (refreshSigningKey settings)

structure AuthInvariant (settings : Settings) (s : AuthRun τ ρ) : Prop where
  users : s.tables.UsersValid
  keys : ∀ jtiHash row, s.tables.refreshTokens jtiHash = some row →
    ∃ jti ∈ s.jtis, jtiHash = hashRefreshTokenIdentifier jti
  signed : ∀ d, Issued d s.history → SignedFor settings s.jtis d
  rows : ∀ d, Issued d s.history → ∃ row, s.tables.refreshTokens d.jtiHash = some row ∧
    RowState s.now s.history d row
  unique : ∀ d d', Issued d s.history → Issued d' s.history → d.jtiHash = d'.jtiHash → d = d'
  pairs : ∀ e ∈ s.history, ∀ pair, e.answer = .ok (some pair) →
    (∃ d, Issued d s.history ∧ d.token = pair.refreshToken) ∧
    ∃ subject expireAt, pair.accessToken =
      TokenLibrary.encode (accessClaims subject expireAt) (accessSigningKey settings)
  refreshed : ∀ e ∈ s.history, ∀ token, Refreshed token e →
    ∃ d, Issued d s.history ∧ d.token = token

theorem authInvariant_initial {s : AuthRun τ ρ} (initial : s.Initial) :
    AuthInvariant settings s := by
  obtain ⟨users, noRows, noJtis, noHistory⟩ := initial
  have none : ∀ d, ¬ Issued d s.history := by
    rintro d ⟨e, he, -⟩
    rw [noHistory] at he
    cases he
  refine ⟨users, ?_, fun d h => absurd h (none d), fun d h => absurd h (none d),
    fun d _ h => absurd h (none d), ?_, ?_⟩
  · intro jtiHash row here
    rw [noRows] at here
    cases here
  · intro e he
    rw [noHistory] at he
    cases he
  · intro e he
    rw [noHistory] at he
    cases he

theorem SignedFor.mono {jtis jtis' : List Str} {d : IssuedToken τ} (sub : ∀ jti ∈ jtis, jti ∈ jtis')
    (signed : SignedFor settings jtis d) : SignedFor settings jtis' d := by
  obtain ⟨family, jti, drawn, rest⟩ := signed
  exact ⟨family, jti, sub jti drawn, rest⟩

/-- Equal tokens have equal rows and keys. -/
theorem SignedFor.jtiHash_eq {jtis jtis' : List Str} {d d' : IssuedToken τ}
    (signed : SignedFor settings jtis d) (signed' : SignedFor settings jtis' d')
    (same : d.token = d'.token) : d.jtiHash = d'.jtiHash := by
  obtain ⟨-, jti, -, key, token⟩ := signed
  obtain ⟨-, jti', -, key', token'⟩ := signed'
  rw [token, token'] at same
  have claims := congrArg Claims.jti (encode_injective same)
  simp only [refreshClaims, Option.some.injEq, Json.str.injEq] at claims
  rw [key, key', claims]

theorem AuthInvariant.eq_of_token {s : AuthRun τ ρ} (holds : AuthInvariant settings s)
    {d d' : IssuedToken τ} (issued : Issued d s.history) (issued' : Issued d' s.history)
    (same : d.token = d'.token) : d = d' :=
  holds.unique d d' issued issued'
    ((holds.signed d issued).jtiHash_eq (holds.signed d' issued') same)

/-- A request that issues no token keeps the invariant when it changes rows as allowed. -/
theorem AuthInvariant.request {s : AuthRun τ ρ} (holds : AuthInvariant settings s)
    {t : AuthTables} {store : ρ} {now : Timestamp} {jtis : List Str} {e : AuthEntry τ}
    (users : t.UsersValid) (later : s.now ≤ now) (sub : ∀ jti ∈ s.jtis, jti ∈ jtis)
    (keys : ∀ jtiHash row, t.refreshTokens jtiHash = some row →
      ∃ jti ∈ jtis, jtiHash = hashRefreshTokenIdentifier jti)
    (quiet : e.issued = none) (noPair : ∀ pair, e.answer ≠ .ok (some pair))
    (changes : ∀ d row, Issued d s.history → s.tables.refreshTokens d.jtiHash = some row →
      RowState s.now s.history d row →
      ∃ row', t.refreshTokens d.jtiHash = some row' ∧ RowChange now s.history e d row row')
    (refreshed : ∀ token, ¬ Refreshed token e) :
    AuthInvariant settings ⟨t, store, now, jtis, e :: s.history⟩ := by
  have issued_iff : ∀ d, Issued d (e :: s.history) ↔ Issued d s.history := fun d => by
    rw [issued_cons, quiet]
    exact or_iff_right (by rintro ⟨⟩)
  refine ⟨users, keys, ?_, ?_, ?_, ?_, ?_⟩
  · intro d issued
    exact (holds.signed d ((issued_iff d).mp issued)).mono sub
  · intro d issued
    have before := (issued_iff d).mp issued
    obtain ⟨row, here, state⟩ := holds.rows d before
    obtain ⟨row', here', change⟩ := changes d row before here state
    exact ⟨row', here', state.change later (by rw [quiet]; rintro ⟨⟩) change⟩
  · intro d d' issued issued'
    exact holds.unique d d' ((issued_iff d).mp issued) ((issued_iff d').mp issued')
  · intro other ho pair answer
    cases List.mem_cons.mp ho with
    | inl same => exact absurd (same ▸ answer) (noPair pair)
    | inr older =>
      obtain ⟨⟨d, issued, token⟩, access⟩ := holds.pairs other older pair answer
      exact ⟨⟨d, issued.cons e, token⟩, access⟩
  · intro other ho token ok
    cases List.mem_cons.mp ho with
    | inl same => exact absurd (same ▸ ok) (refreshed token)
    | inr older =>
      obtain ⟨d, issued, same⟩ := holds.refreshed other older token ok
      exact ⟨d, issued.cons e, same⟩

/-- A request that issues a token under a fresh `jti` keeps the invariant. -/
theorem AuthInvariant.issue {s : AuthRun τ ρ} (holds : AuthInvariant settings s)
    {t : AuthTables} {store : ρ} {now : Timestamp} {uuids : Uuids} {e : AuthEntry τ}
    {d : IssuedToken τ} {pair : TokenResponse τ} (fresh : FreshJti s uuids)
    (users : t.UsersValid) (later : s.now ≤ now) (here : e.issued = some d)
    (answer : e.answer = .ok (some pair))
    (key : d.jtiHash = hashRefreshTokenIdentifier uuids.jti.text)
    (token : d.token = pair.refreshToken)
    (signed : SignedFor settings (uuids.jti.text :: s.jtis) d)
    (access : ∃ subject expireAt, pair.accessToken =
      TokenLibrary.encode (accessClaims subject expireAt) (accessSigningKey settings))
    (live : d.row.revokedAt = none) (first : d.row.replacedByJtiHash = none)
    (inserted : t.refreshTokens d.jtiHash = some d.row)
    (keys : ∀ jtiHash row, t.refreshTokens jtiHash = some row →
      jtiHash = d.jtiHash ∨ ∃ row, s.tables.refreshTokens jtiHash = some row)
    (changes : ∀ d₀ row, Issued d₀ s.history → s.tables.refreshTokens d₀.jtiHash = some row →
      d₀.jtiHash ≠ d.jtiHash → RowState s.now s.history d₀ row →
      ∃ row', t.refreshTokens d₀.jtiHash = some row' ∧ RowChange now s.history e d₀ row row')
    (refreshed : ∀ token, Refreshed token e → ∃ d₀, Issued d₀ s.history ∧ d₀.token = token) :
    AuthInvariant settings ⟨t, store, now, uuids.jti.text :: s.jtis, e :: s.history⟩ := by
  have apart : ∀ d₀, Issued d₀ s.history → d₀.jtiHash ≠ d.jtiHash := by
    intro d₀ issued same
    obtain ⟨-, jti, drawn, key₀, -⟩ := holds.signed d₀ issued
    refine fresh jti drawn ?_
    rw [← key₀, same, key]
  have issued_iff : ∀ d₀, Issued d₀ (e :: s.history) ↔ d₀ = d ∨ Issued d₀ s.history := fun d₀ => by
    rw [issued_cons, here, Option.some.injEq, eq_comm]
  have used : ∀ earlier ∈ e :: s.history, ∀ token, Refreshed token earlier →
      ∃ d₀, Issued d₀ s.history ∧ d₀.token = token := by
    intro earlier he token ok
    cases List.mem_cons.mp he with
    | inl same => exact refreshed token (same ▸ ok)
    | inr older => exact holds.refreshed earlier older token ok
  refine ⟨users, ?_, ?_, ?_, ?_, ?_, ?_⟩
  · intro jtiHash row found
    obtain rfl | ⟨row, older⟩ := keys jtiHash row found
    · exact ⟨_, List.mem_cons_self, key⟩
    · obtain ⟨jti, drawn, same⟩ := holds.keys jtiHash row older
      exact ⟨jti, List.mem_cons_of_mem _ drawn, same⟩
  · intro d₀ issued
    obtain rfl | older := (issued_iff d₀).mp issued
    · exact signed
    · exact (holds.signed d₀ older).mono fun jti drawn => List.mem_cons_of_mem _ drawn
  · intro d₀ issued
    obtain rfl | older := (issued_iff d₀).mp issued
    · refine ⟨d₀.row, inserted, rowState_issued here live first fun earlier he ok => ?_⟩
      obtain ⟨d₁, issued₁, same⟩ := used earlier he _ ok
      exact apart d₁ issued₁ ((holds.signed d₁ issued₁).jtiHash_eq signed same)
    · obtain ⟨row, found, state⟩ := holds.rows d₀ older
      obtain ⟨row', found', change⟩ := changes d₀ row older found (apart d₀ older) state
      refine ⟨row', found', state.change later ?_ change⟩
      rw [here]
      intro same
      exact apart d₀ older (congrArg IssuedToken.jtiHash (Option.some.inj same)).symm
  · intro d₀ d₁ issued₀ issued₁ same
    obtain rfl | older₀ := (issued_iff d₀).mp issued₀ <;>
      obtain rfl | older₁ := (issued_iff d₁).mp issued₁
    · rfl
    · exact absurd same.symm (apart d₁ older₁)
    · exact absurd same (apart d₀ older₀)
    · exact holds.unique d₀ d₁ older₀ older₁ same
  · intro other ho pair' answer'
    cases List.mem_cons.mp ho with
    | inl same =>
      subst same
      rw [answer, Except.ok.injEq, Option.some.injEq] at answer'
      subst answer'
      exact ⟨⟨d, (issued_iff d).mpr (.inl rfl), token⟩, access⟩
    | inr older =>
      obtain ⟨⟨d₀, issued, same⟩, access⟩ := holds.pairs other older pair' answer'
      exact ⟨⟨d₀, issued.cons e, same⟩, access⟩
  · intro other ho token ok
    obtain ⟨d₀, issued, same⟩ := used other ho token ok
    exact ⟨d₀, issued.cons e, same⟩

end Invariant

section Requests
variable [Platform] {τ ρ : Type} [TokenLibrary τ] {settings : Settings}
  {limiter : LoginRateLimiter ρ}

theorem AuthInvariant.rowState {s : AuthRun τ ρ} (holds : AuthInvariant settings s)
    {d : IssuedToken τ} (issued : Issued d s.history) {row : RefreshToken}
    (here : s.tables.refreshTokens d.jtiHash = some row) : RowState s.now s.history d row := by
  obtain ⟨row', here', state⟩ := holds.rows d issued
  rw [here, Option.some.injEq] at here'
  exact here' ▸ state

/-- The record of an issued token. -/
theorem AuthInvariant.record {s : AuthRun τ ρ} (holds : AuthInvariant settings s)
    {d : IssuedToken τ} (issued : Issued d s.history) {row : RefreshToken}
    (here : s.tables.refreshTokens d.jtiHash = some row) (now : Timestamp) :
    getRefreshTokenRecord settings now d.token s.tables =
      if secondsOf now ≤ secondsOf d.row.expiresAt then
        .ok ⟨d.jtiHash, row, d.row.userId, d.row.familyId⟩
      else .error authenticationError := by
  obtain ⟨-, jti, -, key, token⟩ := holds.signed d issued
  have state := holds.rowState issued here
  unfold getRefreshTokenRecord
  rw [token, decodeRefreshToken_refresh]
  by_cases valid : secondsOf now ≤ secondsOf d.row.expiresAt
  · rw [if_pos valid, if_pos valid]
    simp only [idOfStr_strOfId, ← key, here, state.userId, if_true]
  · rw [if_neg valid, if_neg valid]

/-- An unforged text is an issued token, or names no row. -/
theorem AuthInvariant.presented {s : AuthRun τ ρ} (holds : AuthInvariant settings s) {token : τ}
    (unforged : Unforged settings s token) : (∃ d, Issued d s.history ∧ d.token = token) ∨
    ∀ now, getRefreshTokenRecord settings now token s.tables = .error authenticationError := by
  by_cases signed : ∃ now claims,
      TokenLibrary.decode now token (refreshSigningKey settings) = some claims
  · obtain ⟨now, claims, decoded⟩ := signed
    obtain ⟨e, he, pair, answer, kind⟩ := unforged now claims decoded
    obtain ⟨⟨d, issued, same⟩, subject, expireAt, access⟩ := holds.pairs e he pair answer
    cases kind with
    | inl isAccess =>
      refine .inr fun now => ?_
      unfold getRefreshTokenRecord
      rw [isAccess, access, decodeRefreshToken_access]
    | inr isRefresh => exact .inl ⟨d, issued, same.trans isRefresh.symm⟩
  · refine .inr fun now => ?_
    have undecoded : decodeRefreshToken settings now token = none := by
      cases decoded : TokenLibrary.decode now token (refreshSigningKey settings) with
      | none =>
        unfold decodeRefreshToken
        rw [decoded]
        rfl
      | some claims => exact absurd ⟨now, claims, decoded⟩ signed
    unfold getRefreshTokenRecord
    rw [undecoded]

theorem AuthInvariant.vacant {s : AuthRun τ ρ} (holds : AuthInvariant settings s) {uuids : Uuids}
    (fresh : FreshJti s uuids) :
    s.tables.refreshTokens (hashRefreshTokenIdentifier uuids.jti.text) = none := by
  cases here : s.tables.refreshTokens (hashRefreshTokenIdentifier uuids.jti.text) with
  | none => rfl
  | some row =>
    obtain ⟨jti, drawn, same⟩ := holds.keys _ row here
    exact absurd same.symm (fresh jti drawn)

variable (settings) in
/-- What `refresh_session` does with a text, one constructor for each of its exits. -/
inductive RefreshEffect (s : AuthRun τ ρ) (readings : Readings) (uuids : Uuids) :
    τ → Except Raised (TokenResponse τ) × AuthTables → Prop
  | unknown {token : τ} :
    (∀ now, getRefreshTokenRecord settings now token s.tables = .error authenticationError) →
    RefreshEffect s readings uuids token (.error (.app authenticationError), s.tables)
  | undecoded {d : IssuedToken τ} : Issued d s.history →
    secondsOf d.row.expiresAt < secondsOf readings.start →
    RefreshEffect s readings uuids d.token (.error (.app authenticationError), s.tables)
  | expired {d : IssuedToken τ} {row : RefreshToken} : Issued d s.history →
    s.tables.refreshTokens d.jtiHash = some row → row.expiresAt ≤ readings.check →
    RefreshEffect s readings uuids d.token (.error (.app authenticationError),
      s.tables.revokeToken d.jtiHash row readings.check none)
  | reused {d : IssuedToken τ} {row : RefreshToken} : Issued d s.history →
    s.tables.refreshTokens d.jtiHash = some row → readings.check < row.expiresAt →
    row.replacedByJtiHash ≠ none →
    RefreshEffect s readings uuids d.token (.error (.app authenticationError),
      s.tables.revokeFamily row.familyId readings.check true)
  | revoked {d : IssuedToken τ} {row : RefreshToken} : Issued d s.history →
    s.tables.refreshTokens d.jtiHash = some row → readings.check < row.expiresAt →
    row.revokedAt ≠ none → row.replacedByJtiHash = none →
    RefreshEffect s readings uuids d.token (.error (.app authenticationError), s.tables)
  | inactive {d : IssuedToken τ} {row : RefreshToken} : Issued d s.history →
    s.tables.refreshTokens d.jtiHash = some row → row.revokedAt = none →
    (∀ user ∈ s.tables.users, user.id = d.row.userId → user.isActive = false) →
    RefreshEffect s readings uuids d.token (.error (.app authenticationError), s.tables)
  | rotated {d : IssuedToken τ} {row : RefreshToken} {user : User} {pair : TokenResponse τ} :
    Issued d s.history → s.tables.refreshTokens d.jtiHash = some row →
    secondsOf readings.start ≤ secondsOf d.row.expiresAt → readings.check < row.expiresAt →
    row.revokedAt = none → user ∈ s.tables.users → user.id = d.row.userId →
    user.isActive = true →
    PairFor settings uuids.jti.text
      (freshRow settings user.id d.row.familyId readings.sign) pair →
    RefreshEffect s readings uuids d.token (.ok pair,
      (s.tables.revokeToken d.jtiHash row readings.check
          (some (hashRefreshTokenIdentifier uuids.jti.text))).putToken
        (hashRefreshTokenIdentifier uuids.jti.text)
        (freshRow settings user.id d.row.familyId readings.sign))

theorem AuthInvariant.refreshSession_effect {s : AuthRun τ ρ} (holds : AuthInvariant settings s)
    {token : τ} (readings : Readings) {uuids : Uuids} (fresh : FreshJti s uuids)
    (unforged : Unforged settings s token) :
    RefreshEffect settings s readings uuids token
      (refreshSession settings token readings uuids s.tables) := by
  unfold refreshSession
  obtain ⟨d, issued, rfl⟩ | unknown := holds.presented unforged
  swap
  · rw [unknown]
    exact .unknown unknown
  obtain ⟨row, here, state⟩ := holds.rows d issued
  rw [holds.record issued here]
  by_cases decoded : secondsOf readings.start ≤ secondsOf d.row.expiresAt
  swap
  · rw [if_neg decoded]
    exact .undecoded issued (Int.not_le.mp decoded)
  rw [if_pos decoded]
  by_cases expired : row.expiresAt ≤ readings.check
  · simp only [if_pos expired]
    exact .expired issued here expired
  simp only [if_neg expired]
  cases revoked : row.revokedAt with
  | some revokedAt =>
    have isRevoked : row.revokedAt ≠ none := by
      rw [revoked]
      rintro ⟨⟩
    cases replaced : row.replacedByJtiHash with
    | some successor =>
      refine .reused issued here (Int.not_le.mp expired) ?_
      rw [replaced]
      rintro ⟨⟩
    | none => exact .revoked issued here (Int.not_le.mp expired) isRevoked replaced
  | none =>
    simp only [Option.isSome_none, Bool.false_eq_true, if_false]
    cases found : s.tables.getById d.row.userId with
    | none =>
      refine .inactive issued here revoked fun user hu same => ?_
      exact absurd same (AuthTables.getById_none found user hu)
    | some user =>
      obtain ⟨hu, same⟩ := AuthTables.getById_some found
      by_cases active : user.isActive = true
      · simp only [if_pos active]
        obtain ⟨pair, rotated, signed⟩ := rotateToken_vacant (τ := τ) settings
          ⟨d.jtiHash, row, d.row.userId, d.row.familyId⟩ (holds.vacant fresh)
          (by rw [here]; rintro ⟨⟩) (holds.signed d issued).1 user readings
        rw [rotated]
        exact .rotated issued here decoded (Int.not_le.mp expired) revoked hu same active signed
      · simp only [if_neg active]
        refine .inactive issued here revoked fun other ho same' => ?_
        have only := List.inj_on_of_nodup_map holds.users.nodup ho hu (same'.trans same.symm)
        rw [only]
        exact Bool.eq_false_iff.mpr active

theorem AuthInvariant.refused {s : AuthRun τ ρ} (holds : AuthInvariant settings s)
    {t : AuthTables} {token : τ} {readings : Readings} {uuids : Uuids}
    (later : s.now ≤ readings.start) (users : t.UsersValid)
    (keys : ∀ jtiHash row, t.refreshTokens jtiHash = some row →
      ∃ row, s.tables.refreshTokens jtiHash = some row)
    (changes : ∀ e d row, e.op = .refreshSession token readings uuids →
      (∀ token, ¬ Refreshed token e) → Issued d s.history →
      s.tables.refreshTokens d.jtiHash = some row → RowState s.now s.history d row →
      ∃ row', t.refreshTokens d.jtiHash = some row' ∧
        RowChange readings.finish s.history e d row row') :
    AuthInvariant settings ⟨t, s.store, readings.finish, uuids.jti.text :: s.jtis,
      ⟨.refreshSession token readings uuids, .error (.app authenticationError), none⟩ ::
        s.history⟩ := by
  have failed : ∀ other : τ, ¬ Refreshed other (⟨.refreshSession token readings uuids,
      .error (.app authenticationError), none⟩ : AuthEntry τ) := by
    rintro other ⟨-, answer, ⟨⟩⟩
  refine holds.request users (Readings.later later).2
    (fun jti drawn => List.mem_cons_of_mem _ drawn) ?_ rfl (by rintro _ ⟨⟩) ?_ failed
  · intro jtiHash row found
    obtain ⟨row, older⟩ := keys jtiHash row found
    obtain ⟨jti, drawn, same⟩ := holds.keys jtiHash row older
    exact ⟨jti, List.mem_cons_of_mem _ drawn, same⟩
  · intro d row issued here state
    exact changes _ d row rfl failed issued here state

/-- A refused refresh that finds no reason to write. -/
theorem AuthInvariant.refused_same {s : AuthRun τ ρ} (holds : AuthInvariant settings s)
    {token : τ} {readings : Readings} {uuids : Uuids} (later : s.now ≤ readings.start)
    (noReuse : ∀ d, Issued d s.history → d.token = token →
      (∃ earlier ∈ s.history, Refreshed d.token earlier) → d.row.expiresAt ≤ readings.check) :
    AuthInvariant settings ⟨s.tables, s.store, readings.finish, uuids.jti.text :: s.jtis,
      ⟨.refreshSession token readings uuids, .error (.app authenticationError), none⟩ ::
        s.history⟩ := by
  refine holds.refused later holds.users (fun _ row here => ⟨row, here⟩) ?_
  intro e d row op failed _ here _
  refine ⟨row, here, .kept (failed _) fun _ => not_ends_refresh op (failed _) ?_⟩
  intro d' issued' same rotated _
  exact noReuse d' issued' same rotated

omit [Platform] in
theorem seconds_expired {expiresAt : Timestamp} {readings : Readings}
    (undecoded : secondsOf expiresAt < secondsOf readings.start) :
    expiresAt ≤ readings.check := by
  have ordered := readings.ordered
  unfold secondsOf Timestamp at *
  omega

/-- The presented row has expired. -/
theorem AuthInvariant.refresh_expired {s : AuthRun τ ρ} (holds : AuthInvariant settings s)
    {readings : Readings} {uuids : Uuids} (later : s.now ≤ readings.start) {d : IssuedToken τ}
    {row : RefreshToken} (issued : Issued d s.history)
    (here : s.tables.refreshTokens d.jtiHash = some row)
    (expired : row.expiresAt ≤ readings.check) :
    AuthInvariant settings ⟨s.tables.revokeToken d.jtiHash row readings.check none, s.store,
      readings.finish, uuids.jti.text :: s.jtis,
      ⟨.refreshSession d.token readings uuids, .error (.app authenticationError), none⟩ ::
        s.history⟩ := by
  refine holds.refused later ⟨holds.users.nodup, holds.users.bound⟩
    (fun _ _ found => AuthTables.putToken_present here found) ?_
  intro e d' row' op failed issued' here' state'
  by_cases own : d'.jtiHash = d.jtiHash
  · rw [own] at here' ⊢
    cases here.symm.trans here'
    refine ⟨_, AuthTables.putToken_self _ _ _, .expired (failed _) ?_⟩
    exact Int.le_trans expired (Int.le_trans readings.ordered.2.1 readings.ordered.2.2)
  · refine ⟨row', by rwa [AuthTables.revokeToken, AuthTables.putToken_of_ne _ own],
      .kept (failed _) fun _ => not_ends_refresh op (failed _) ?_⟩
    intro d₁ issued₁ same _ _
    rw [holds.eq_of_token issued₁ issued same, ← (holds.rowState issued here).expiresAt]
    exact expired

/-- The presented row was replaced, and its family is revoked. -/
theorem AuthInvariant.refresh_reused {s : AuthRun τ ρ} (holds : AuthInvariant settings s)
    {readings : Readings} {uuids : Uuids} (later : s.now ≤ readings.start) {d : IssuedToken τ}
    {row : RefreshToken} (issued : Issued d s.history)
    (here : s.tables.refreshTokens d.jtiHash = some row) (valid : readings.check < row.expiresAt)
    (replaced : row.replacedByJtiHash ≠ none) :
    AuthInvariant settings ⟨s.tables.revokeFamily row.familyId readings.check true, s.store,
      readings.finish, uuids.jti.text :: s.jtis,
      ⟨.refreshSession d.token readings uuids, .error (.app authenticationError), none⟩ ::
        s.history⟩ := by
  have state := holds.rowState issued here
  refine holds.refused later ⟨holds.users.nodup, holds.users.bound⟩
    (fun _ _ found => AuthTables.updateTokens_present found) ?_
  intro e d' row' op failed issued' here' state'
  refine ⟨_, AuthTables.updateTokens_some _ here' _ _, ?_⟩
  by_cases live : row'.liveInFamily row.familyId = true
  · rw [if_pos live]
    simp only [RefreshToken.liveInFamily, Bool.and_eq_true, decide_eq_true_eq] at live
    refine .ended (failed _) (.reused op issued (state.replaced replaced).2 ?_ ?_)
      (by rintro ⟨⟩)
    · rw [← state.familyId, ← state'.familyId, live.1]
    · rw [← state.expiresAt]
      exact valid
  · rw [if_neg live]
    refine .kept (failed _) fun none => not_ends_refresh op (failed _) ?_
    intro d₁ issued₁ same _ family
    rw [holds.eq_of_token issued₁ issued same, ← state.familyId, ← state'.familyId] at family
    simp [RefreshToken.liveInFamily, family, none] at live

/-- The presented row is replaced by a new one. -/
theorem AuthInvariant.refresh_rotated {s : AuthRun τ ρ} (holds : AuthInvariant settings s)
    {readings : Readings} {uuids : Uuids} (later : s.now ≤ readings.start)
    (fresh : FreshJti s uuids) {d : IssuedToken τ} {row : RefreshToken} {user : User}
    {pair : TokenResponse τ} (issued : Issued d s.history)
    (here : s.tables.refreshTokens d.jtiHash = some row) (live : row.revokedAt = none)
    (signed : PairFor settings uuids.jti.text
      (freshRow settings user.id d.row.familyId readings.sign) pair)
    {t : AuthTables} (rotated : t = (s.tables.revokeToken d.jtiHash row readings.check
        (some (hashRefreshTokenIdentifier uuids.jti.text))).putToken
      (hashRefreshTokenIdentifier uuids.jti.text)
      (freshRow settings user.id d.row.familyId readings.sign)) :
    AuthInvariant settings ⟨t, s.store, readings.finish, uuids.jti.text :: s.jtis,
      ⟨.refreshSession d.token readings uuids, .ok (some pair), issuedBy (.ok pair) uuids t⟩ ::
        s.history⟩ := by
  have unrotated : ¬ ∃ earlier ∈ s.history, Refreshed d.token earlier := fun refreshed =>
    ((holds.rowState issued here).refreshed refreshed).1 live
  refine holds.issue (d := ⟨pair.refreshToken, hashRefreshTokenIdentifier uuids.jti.text,
    freshRow settings user.id d.row.familyId readings.sign⟩) fresh
    (rotated ▸ ⟨holds.users.nodup, holds.users.bound⟩) (Readings.later later).2 ?_ rfl rfl rfl
    ⟨(holds.signed d issued).1, _, List.mem_cons_self, rfl, signed.1⟩ signed.2 rfl rfl
    (by rw [rotated, AuthTables.putToken_self]) ?_ ?_ ?_
  · simp only [issuedBy, rotated, AuthTables.putToken_self, Option.map_some]
  · intro jtiHash row' found
    by_cases new : jtiHash = hashRefreshTokenIdentifier uuids.jti.text
    · exact .inl new
    · rw [rotated, AuthTables.putToken_of_ne _ new] at found
      exact .inr (AuthTables.putToken_present here found)
  · intro d₀ row₀ issued₀ here₀ apart state₀
    rw [rotated, AuthTables.putToken_of_ne _ apart]
    by_cases own : d₀.jtiHash = d.jtiHash
    · cases holds.unique d₀ d issued₀ issued own
      cases here.symm.trans here₀
      exact ⟨_, AuthTables.putToken_self _ _ _, .rotated ⟨⟨_, _, rfl⟩, _, rfl⟩⟩
    · have other : d₀.token ≠ d.token := fun same =>
        own (by rw [holds.eq_of_token issued₀ issued same])
      refine ⟨row₀, by rwa [AuthTables.revokeToken, AuthTables.putToken_of_ne _ own],
        .kept (not_refreshed_of_ne rfl other) fun _ =>
          not_ends_refresh rfl (not_refreshed_of_ne rfl other) ?_⟩
      intro d₁ issued₁ same refreshed _
      exact absurd (same ▸ refreshed) unrotated
  · rintro token ⟨⟨_, _, op⟩, -⟩
    cases op
    exact ⟨d, issued, rfl⟩

theorem AuthInvariant.refresh {s : AuthRun τ ρ} (holds : AuthInvariant settings s)
    {token : τ} {readings : Readings} {uuids : Uuids} (later : s.now ≤ readings.start)
    (fresh : FreshJti s uuids) {done : Except Raised (TokenResponse τ) × AuthTables}
    (effect : RefreshEffect settings s readings uuids token done) :
    AuthInvariant settings ⟨done.2, s.store, readings.finish, uuids.jti.text :: s.jtis,
      ⟨.refreshSession token readings uuids, done.1.map some, issuedBy done.1 uuids done.2⟩ ::
        s.history⟩ := by
  cases effect with
  | unknown unknown =>
    refine holds.refused_same later fun d issued same _ => ?_
    obtain ⟨row, here, -⟩ := holds.rows d issued
    have record := holds.record issued here readings.start
    rw [same, unknown] at record
    split at record
    · cases record
    · rename_i undecoded
      exact seconds_expired (Int.not_le.mp undecoded)
  | undecoded issued undecoded =>
    refine holds.refused_same later fun d issued' same _ => ?_
    rw [holds.eq_of_token issued' issued same]
    exact seconds_expired undecoded
  | expired issued here expired => exact holds.refresh_expired later issued here expired
  | reused issued here valid replaced =>
    exact holds.refresh_reused later issued here valid replaced
  | @revoked d row issued here valid revoked unreplaced =>
    have state := holds.rowState issued here
    refine holds.refused_same later fun d₁ issued₁ same refreshed => ?_
    cases holds.eq_of_token issued₁ issued same
    rw [← state.expiresAt]
    obtain replaced | expired := (state.refreshed refreshed).2
    · exact absurd unreplaced replaced
    · exact Int.le_trans expired (Readings.later later).1
  | @inactive d row issued here live =>
    refine holds.refused_same later fun d₁ issued₁ same refreshed => ?_
    cases holds.eq_of_token issued₁ issued same
    exact absurd live ((holds.rowState issued here).refreshed refreshed).1
  | rotated issued here _ _ live _ _ _ signed =>
    exact holds.refresh_rotated later fresh issued here live signed rfl

variable (settings limiter) in
theorem loginUser_cases {t : AuthTables} {uuids : Uuids}
    (vacant : t.refreshTokens (hashRefreshTokenIdentifier uuids.jti.text) = none)
    (payload : LoginRequest) (rateLimitKey : Str) (readings : Readings) (store : ρ) :
    (∃ error store', loginUser (τ := τ) settings limiter payload rateLimitKey readings uuids t
      store = (.error error, t, store')) ∨
    ∃ user ∈ t.users, ∃ (pair : TokenResponse τ) (store' : ρ),
      loginUser settings limiter payload rateLimitKey readings uuids t store =
        (.ok pair, t.putToken (hashRefreshTokenIdentifier uuids.jti.text)
          (freshRow settings user.id uuids.familyId.text readings.sign), store') ∧
      PairFor settings uuids.jti.text
        (freshRow settings user.id uuids.familyId.text readings.sign) pair := by
  unfold loginUser
  split
  · exact .inl ⟨_, _, rfl⟩
  · rename_i store₁ _
    cases found : t.getByEmail (Platform.lower (strip payload.email)) with
    | none => exact .inl ⟨_, _, rfl⟩
    | some user =>
      by_cases verified : TokenLibrary.verifyPassword τ payload.password user.passwordHash = true
      · by_cases active : user.isActive = true
        · simp only [if_pos verified, if_pos active]
          obtain ⟨pair, issued, signed⟩ := issueTokenPair_vacant (τ := τ) settings vacant
            user readings
          rw [issued]
          exact .inr ⟨user, List.mem_of_find?_eq_some found, pair, _, rfl, signed⟩
        · simp only [if_pos verified, if_neg active]
          exact .inl ⟨_, _, rfl⟩
      · simp only [if_neg verified]
        exact .inl ⟨_, _, rfl⟩

theorem AuthInvariant.login {s : AuthRun τ ρ} (holds : AuthInvariant settings s)
    {payload : LoginRequest} {rateLimitKey : Str} {readings : Readings} {uuids : Uuids}
    (later : s.now ≤ readings.start) (fresh : FreshJti s uuids) :
    AuthInvariant settings
      (s.apply settings limiter (.loginUser payload rateLimitKey readings uuids)) := by
  have onTime := (Readings.later later).2
  change AuthInvariant settings ⟨_, _, _, _, ⟨_, _, _⟩ :: _⟩
  have cases := loginUser_cases (τ := τ) settings limiter (holds.vacant fresh) payload
    rateLimitKey readings s.store
  generalize loginUser (τ := τ) settings limiter payload rateLimitKey readings uuids s.tables
    s.store = done at cases ⊢
  obtain ⟨error, store', rfl⟩ | ⟨user, hu, pair, store', rfl, signed⟩ := cases
  · refine holds.request holds.users onTime
      (fun jti drawn => List.mem_cons_of_mem _ drawn) ?_ rfl (by rintro _ ⟨⟩) ?_
      (not_refreshed_inert rfl)
    · intro jtiHash row found
      obtain ⟨jti, drawn, same⟩ := holds.keys jtiHash row found
      exact ⟨jti, List.mem_cons_of_mem _ drawn, same⟩
    · intro d row issued here _
      exact ⟨row, here, .kept (not_refreshed_inert rfl _) fun _ => not_ends_inert rfl⟩
  · refine holds.issue (d := ⟨pair.refreshToken, hashRefreshTokenIdentifier uuids.jti.text,
      freshRow settings user.id uuids.familyId.text readings.sign⟩) fresh
      ⟨holds.users.nodup, holds.users.bound⟩ onTime ?_ rfl rfl rfl
      ⟨uuids.familyId.text_ne_nil, _, List.mem_cons_self, rfl, signed.1⟩ signed.2 rfl rfl
      (AuthTables.putToken_self _ _ _) ?_ ?_ ?_
    · simp only [issuedBy, AuthTables.putToken_self, Option.map_some]
    · intro jtiHash row found
      by_cases new : jtiHash = hashRefreshTokenIdentifier uuids.jti.text
      · exact .inl new
      · exact .inr ⟨row, by rwa [AuthTables.putToken_of_ne _ new] at found⟩
    · intro d row issued here apart _
      exact ⟨row, by rwa [AuthTables.putToken_of_ne _ apart],
        .kept (not_refreshed_inert rfl _) fun _ => not_ends_inert rfl⟩
    · intro token refreshed
      exact absurd refreshed (not_refreshed_inert rfl _)

/-- A request that leaves `refresh_tokens` alone. -/
theorem AuthInvariant.inert {s : AuthRun τ ρ} (holds : AuthInvariant settings s) {t : AuthTables}
    {e : AuthEntry τ} (users : t.UsersValid)
    (same : t.refreshTokens = s.tables.refreshTokens) (inert : e.op.inert = true)
    (quiet : e.issued = none) (noPair : ∀ pair, e.answer ≠ .ok (some pair)) :
    AuthInvariant settings { s with tables := t, history := e :: s.history } := by
  refine holds.request users (Int.le_refl _) (fun _ drawn => drawn) ?_ quiet noPair ?_
    (not_refreshed_inert inert)
  · rw [same]
    exact holds.keys
  · intro d row _ here _
    exact ⟨row, by rwa [same], .kept (not_refreshed_inert inert _) fun _ => not_ends_inert inert⟩

theorem AuthInvariant.logoutAll {s : AuthRun τ ρ} (holds : AuthInvariant settings s)
    {userId : Nat} {readings : Readings} (later : s.now ≤ readings.start) :
    AuthInvariant settings (s.apply settings limiter (.logoutAll userId readings)) := by
  have notRefreshed : ∀ token : τ, ¬ Refreshed token
      (⟨.logoutAll userId readings, .ok none, none⟩ : AuthEntry τ) := by
    rintro token ⟨⟨_, _, op⟩, -⟩
    cases op
  refine holds.request ⟨holds.users.nodup, holds.users.bound⟩ (Readings.later later).2
    (fun _ drawn => drawn) ?_ rfl (by rintro _ ⟨⟩) ?_ notRefreshed
  · intro jtiHash row' found
    obtain ⟨row, here⟩ := AuthTables.updateTokens_present found
    exact holds.keys jtiHash row here
  · intro d row issued here state
    refine ⟨_, AuthTables.updateTokens_some _ here _ _, ?_⟩
    by_cases live : row.liveForUser userId = true
    · rw [if_pos live]
      simp only [RefreshToken.liveForUser, Bool.and_eq_true, decide_eq_true_eq] at live
      refine .ended (notRefreshed _) (.loggedOutAll readings ?_) (by rintro ⟨⟩)
      rw [← state.userId, live.1]
    · rw [if_neg live]
      refine .kept (notRefreshed _) fun none => not_ends_logoutAll rfl fun same => live ?_
      simp [RefreshToken.liveForUser, none, state.userId, same]

/-- What `logout` does with a text. -/
inductive LogoutEffect (s : AuthRun τ ρ) (readings : Readings) :
    τ → Except AppError Unit × AuthTables → Prop
  | refused {token : τ} : LogoutEffect s readings token (.error authenticationError, s.tables)
  | revokes {d : IssuedToken τ} {row : RefreshToken} : Issued d s.history →
    s.tables.refreshTokens d.jtiHash = some row → row.revokedAt = none →
    LogoutEffect s readings d.token (.ok (), s.tables.revokeToken d.jtiHash row readings.check none)
  | already {d : IssuedToken τ} {row : RefreshToken} : Issued d s.history →
    s.tables.refreshTokens d.jtiHash = some row → row.revokedAt ≠ none →
    LogoutEffect s readings d.token (.ok (), s.tables)

theorem AuthInvariant.logout_effect {s : AuthRun τ ρ} (holds : AuthInvariant settings s)
    {token : τ} (readings : Readings) (unforged : Unforged settings s token) :
    LogoutEffect s readings token (logout settings token readings s.tables) := by
  unfold logout
  obtain ⟨d, issued, rfl⟩ | unknown := holds.presented unforged
  · obtain ⟨row, here, -⟩ := holds.rows d issued
    rw [holds.record issued here]
    by_cases decoded : secondsOf readings.start ≤ secondsOf d.row.expiresAt
    · rw [if_pos decoded]
      cases revoked : row.revokedAt with
      | none =>
        simp only [revoked, Option.isNone_none, if_true]
        exact .revokes issued here revoked
      | some revokedAt =>
        simp only [revoked, Option.isNone_some, Bool.false_eq_true, if_false]
        exact .already issued here (by rw [revoked]; rintro ⟨⟩)
    · rw [if_neg decoded]
      exact .refused
  · rw [unknown]
    exact .refused

theorem AuthInvariant.logout {s : AuthRun τ ρ} (holds : AuthInvariant settings s)
    {token : τ} {readings : Readings} (later : s.now ≤ readings.start)
    {done : Except AppError Unit × AuthTables} (effect : LogoutEffect s readings token done) :
    AuthInvariant settings ⟨done.2, s.store, readings.finish, s.jtis,
      ⟨.logout token readings, (done.1.map fun _ => none).mapError .app, none⟩ :: s.history⟩ := by
  have onTime := (Readings.later later).2
  have notRefreshed : ∀ (token other : τ) (answer : Except Raised (Option (TokenResponse τ))),
      ¬ Refreshed other (⟨.logout token readings, answer, none⟩ : AuthEntry τ) := by
    rintro token other answer ⟨⟨_, _, op⟩, -⟩
    cases op
  cases effect with
  | refused =>
    refine holds.request holds.users onTime (fun _ drawn => drawn) holds.keys rfl
      (by rintro _ ⟨⟩) ?_ fun other => notRefreshed _ other _
    intro d row issued here _
    refine ⟨row, here, .kept (notRefreshed _ _ _) fun _ => not_ends_logout rfl ?_⟩
    rintro ⟨answer, ⟨⟩⟩
  | @already d row issued here revoked =>
    refine holds.request holds.users onTime (fun _ drawn => drawn) holds.keys rfl
      (by rintro _ ⟨⟩) ?_ fun other => notRefreshed _ other _
    intro d' row' issued' here' _
    refine ⟨row', here', .kept (notRefreshed _ _ _) fun none =>
      not_ends_logout rfl fun _ same => ?_⟩
    cases holds.eq_of_token issued' issued same
    cases here.symm.trans here'
    exact revoked none
  | @revokes d row issued here live =>
    refine holds.request ⟨holds.users.nodup, holds.users.bound⟩ onTime (fun _ drawn => drawn) ?_ rfl
      (by rintro _ ⟨⟩) ?_ fun other => notRefreshed _ other _
    · intro jtiHash row' found
      obtain ⟨row₀, older⟩ := AuthTables.putToken_present here found
      exact holds.keys jtiHash row₀ older
    · intro d' row' issued' here' state'
      by_cases own : d'.jtiHash = d.jtiHash
      · cases holds.unique d' d issued' issued own
        cases here.symm.trans here'
        have first : row.replacedByJtiHash = none := by
          by_contra replaced
          exact (state'.replaced replaced).1 live
        have written : row.revoke readings.check none =
            { row with
              revokedAt := some readings.check, reuseDetectedAt := row.reuseDetectedAt } := by
          rw [← first]
          rfl
        exact ⟨_, AuthTables.putToken_self _ _ _, written ▸ .ended (notRefreshed _ _ _)
          (.loggedOut ⟨⟨_, rfl⟩, _, rfl⟩) (by rintro ⟨⟩)⟩
      · refine ⟨row', by rwa [AuthTables.revokeToken, AuthTables.putToken_of_ne _ own],
          .kept (notRefreshed _ _ _) fun _ => not_ends_logout rfl fun _ same => own ?_⟩
        rw [holds.eq_of_token issued' issued same]

theorem AuthInvariant.next {s : AuthRun τ ρ} (holds : AuthInvariant settings s) {op : AuthOp τ}
    (assumed : Assumed settings s op) : AuthInvariant settings (s.apply settings limiter op) := by
  have noPair : ∀ {answer : Except AppError User} (pair : TokenResponse τ),
      (answer.map fun _ => none).mapError Raised.app ≠ .ok (some pair) := by
    intro answer pair
    cases answer <;> rintro ⟨⟩
  cases op with
  | registerUser payload hashed =>
    exact holds.inert (registerUser_valid holds.users payload hashed)
      (registerUser_tokens payload hashed _) rfl rfl noPair
  | loginUser payload rateLimitKey readings uuids => exact holds.login assumed.1 assumed.2
  | refreshSession token readings uuids =>
    obtain ⟨later, fresh, unforged⟩ := assumed
    exact holds.refresh later fresh (holds.refreshSession_effect _ fresh unforged)
  | logout token readings =>
    exact holds.logout assumed.1 (holds.logout_effect readings assumed.2)
  | logoutAll userId readings => exact holds.logoutAll assumed
  | updateUserStatus userId isActive =>
    exact holds.inert (updateUserStatus_valid holds.users userId isActive)
      (updateUserStatus_tokens userId isActive _) rfl rfl noPair

/-- The token was issued, is accepted by the expiry check of `jwt.decode` and has a row
that has not expired, its owner is active, and nothing has ended it. -/
def Accepted (settings : Settings) (s : AuthRun τ ρ) (token : τ) (readings : Readings) : Prop :=
  ∃ d, d.token = token ∧ Standing d s.history ∧
    (∃ claims, TokenLibrary.decode readings.start token (refreshSigningKey settings) =
      some claims) ∧
    (∃ row, s.tables.refreshTokens d.jtiHash = some row ∧ readings.check < row.expiresAt) ∧
    ∃ user ∈ s.tables.users, user.id = d.row.userId ∧ user.isActive = true

theorem AuthInvariant.decoded_iff {s : AuthRun τ ρ} (holds : AuthInvariant settings s)
    {d : IssuedToken τ} (issued : Issued d s.history) (now : Timestamp) :
    (∃ claims, TokenLibrary.decode now d.token (refreshSigningKey settings) = some claims) ↔
      secondsOf now ≤ secondsOf d.row.expiresAt := by
  obtain ⟨-, jti, -, -, token⟩ := holds.signed d issued
  rw [token, TokenLibrary.decode_encode]
  by_cases valid : secondsOf now ≤ secondsOf d.row.expiresAt
  · exact iff_of_true ⟨_, if_pos ⟨rfl, valid⟩⟩ valid
  · refine iff_of_false ?_ valid
    rw [if_neg fun both => valid both.2]
    rintro ⟨claims, ⟨⟩⟩

/-- A standing token whose row has not expired is live. -/
theorem AuthInvariant.standing_live {s : AuthRun τ ρ} (holds : AuthInvariant settings s)
    {d : IssuedToken τ} (standing : Standing d s.history) {row : RefreshToken}
    (here : s.tables.refreshTokens d.jtiHash = some row) (valid : s.now < row.expiresAt) :
    row.revokedAt = none ∧ row.replacedByJtiHash = none := by
  have state := holds.rowState standing.was_issued here
  obtain live | expired := state.standing standing
  · refine ⟨live, ?_⟩
    by_contra replaced
    exact (state.replaced replaced).1 live
  · exact absurd valid (Int.not_lt.mpr expired)

theorem AuthInvariant.accepted {s : AuthRun τ ρ} (holds : AuthInvariant settings s) {token : τ}
    {readings : Readings} {uuids : Uuids} (later : s.now ≤ readings.start)
    {done : Except Raised (TokenResponse τ) × AuthTables}
    (effect : RefreshEffect settings s readings uuids token done) :
    (∃ pair, done.1 = .ok pair ∧ Accepted settings s token readings) ∨
    (done.1 = .error (.app authenticationError) ∧ ¬ Accepted settings s token readings) := by
  have onTime := (Readings.later later).1
  cases effect with
  | unknown unknown =>
    refine .inr ⟨rfl, ?_⟩
    rintro ⟨d, rfl, standing, decoded, ⟨row, here, -⟩, -⟩
    have record := holds.record standing.was_issued here readings.start
    rw [if_pos ((holds.decoded_iff standing.was_issued _).mp decoded), unknown] at record
    cases record
  | undecoded issued undecoded =>
    refine .inr ⟨rfl, ?_⟩
    rintro ⟨d, same, standing, decoded, -⟩
    cases holds.eq_of_token standing.was_issued issued same
    exact Int.not_lt.mpr ((holds.decoded_iff issued _).mp decoded) undecoded
  | expired issued here expired =>
    refine .inr ⟨rfl, ?_⟩
    rintro ⟨d, same, standing, -, ⟨row, here', valid⟩, -⟩
    cases holds.eq_of_token standing.was_issued issued same
    cases here.symm.trans here'
    exact Int.not_lt.mpr expired valid
  | reused issued here valid replaced =>
    refine .inr ⟨rfl, ?_⟩
    rintro ⟨d, same, standing, -⟩
    cases holds.eq_of_token standing.was_issued issued same
    exact replaced (holds.standing_live standing here (Int.lt_of_le_of_lt onTime valid)).2
  | revoked issued here valid revoked =>
    refine .inr ⟨rfl, ?_⟩
    rintro ⟨d, same, standing, -⟩
    cases holds.eq_of_token standing.was_issued issued same
    exact revoked (holds.standing_live standing here (Int.lt_of_le_of_lt onTime valid)).1
  | inactive issued here _ inactive =>
    refine .inr ⟨rfl, ?_⟩
    rintro ⟨d, same, standing, -, -, user, hu, owner, active⟩
    cases holds.eq_of_token standing.was_issued issued same
    rw [inactive user hu owner] at active
    cases active
  | @rotated d row user pair issued here decoded valid live hu owner active =>
    have state := holds.rowState issued here
    exact .inl ⟨pair, rfl, d, rfl, state.live live, (holds.decoded_iff issued _).mpr decoded,
      ⟨row, here, valid⟩, user, hu, owner, active⟩

/-- `refresh_session` succeeds on the accepted tokens and raises AuthenticationError
on every other text. -/
theorem refresh_succeeds_iff (settings : Settings) (limiter : LoginRateLimiter ρ)
    (s : AuthRun τ ρ) (reached : Reach (authMachine settings limiter) (Assumed settings)
      AuthRun.Initial s) (token : τ) (readings : Readings) (uuids : Uuids)
    (assumed : Assumed settings s (.refreshSession token readings uuids)) :
    ((∃ pair, (refreshSession settings token readings uuids s.tables).1 = .ok pair) ↔
      Accepted settings s token readings) ∧
    (¬ Accepted settings s token readings →
      (refreshSession settings token readings uuids s.tables).1 =
        .error (.app authenticationError)) := by
  have holds := reached.invariant (fun s initial => authInvariant_initial initial)
    fun s t op (holds : AuthInvariant settings s) assumed moved => by
      cases moved
      exact holds.next assumed
  obtain ⟨later, fresh, unforged⟩ := assumed
  have effect := holds.refreshSession_effect readings fresh unforged
  obtain ⟨pair, ok, accepted⟩ | ⟨refused, unaccepted⟩ := holds.accepted later effect
  · exact ⟨iff_of_true ⟨pair, ok⟩ accepted, fun unaccepted => absurd accepted unaccepted⟩
  · refine ⟨iff_of_false ?_ unaccepted, fun _ => refused⟩
    rintro ⟨pair, ok⟩
    rw [refused] at ok
    cases ok

end Requests

/-- Tokens that carry their payload and key in the open. -/
@[reducible] def openLibrary : TokenLibrary (Claims × Str) where
  encode claims key := (claims, key)
  decode now token key :=
    if token.2 = key ∧ secondsOf now ≤ token.1.exp then some token.1 else none
  decode_encode _ _ _ _ := rfl
  verifyPassword password hash := password = hash

/-- One secret for both kinds of tokens. -/
def sharedSecret : Settings where
  jwtSecretKey := List.replicate 32 'k'
  jwtAccessSecretKey := none
  jwtRefreshSecretKey := none
  jwtAccessTokenExpireMinutes := 15
  jwtRefreshTokenExpireMinutes := 10080

def repeatedUuid (c : Char) : Uuid where
  text := List.replicate 36 c
  length := by rw [List.length_replicate]

def readingsAt (t : Timestamp) : Readings := ⟨t, t, t, t, by simp⟩

def noLimiter : LoginRateLimiter Unit := ⟨fun _ _ _ => (true, ()), fun _ _ _ => (), fun _ _ _ => ()⟩

/-- The refresh tokens of the first user in one family. -/
def familyToken (jti : Char) (issuedAt : Timestamp) : Claims × Str :=
  (refreshClaims (strOfId 1) (repeatedUuid jti).text (repeatedUuid 'f').text
    (issuedAt + lifetime 10080), List.replicate 32 'k')

theorem samplePassword_length :
    8 ≤ "password".toList.length ∧ "password".toList.length ≤ 128 := by decide

/-- A user who registers, logs in and refreshes once. -/
def rotatedOnce : List (AuthOp (Claims × Str)) :=
  [.registerUser { email := ['u'], password := "password".toList } "password".toList,
    .loginUser { email := ['u'], password := "password".toList } [] (readingsAt 0)
      ⟨repeatedUuid 'a', repeatedUuid 'f'⟩,
    .refreshSession (familyToken 'a' 0) (readingsAt 1) ⟨repeatedUuid 'b', repeatedUuid 'g'⟩]

theorem rotatedOnce_reach :
    let _ := asciiPlatform
    let _ := openLibrary
    ∀ s, (authMachine sharedSecret noLimiter).run { tables := {}, store := (), now := 0 }
        rotatedOnce = some s →
      Reach (authMachine sharedSecret noLimiter) (Assumed sharedSecret) AuthRun.Initial s := by
  intro _ _ s ran
  have initial : AuthRun.Initial ({ tables := {}, store := (), now := 0 } :
      AuthRun (Claims × Str) Unit) := ⟨⟨List.nodup_nil, by rintro _ ⟨⟩⟩, rfl, rfl, rfl⟩
  have meets : Meets (authMachine sharedSecret noLimiter) (Assumed sharedSecret)
      { tables := {}, store := (), now := 0 } rotatedOnce := by
    refine ⟨trivial, ?_⟩
    rintro _ ⟨⟩
    refine ⟨⟨by decide, by rintro _ ⟨⟩⟩, ?_⟩
    rintro _ ⟨⟩
    exact ⟨⟨by decide, by decide, fun _ _ _ => ⟨_, List.mem_cons_self, _, rfl, .inr rfl⟩⟩,
      fun _ _ => trivial⟩
  exact Reach.of_run (.start initial) meets ran

/-- The first token is spent, the second one is accepted. -/
theorem refresh_succeeds_rotatedOnce :
    let _ := asciiPlatform
    let _ := openLibrary
    ∃ s, (authMachine sharedSecret noLimiter).run { tables := {}, store := (), now := 0 }
        rotatedOnce = some s ∧
      ¬ Accepted sharedSecret s (familyToken 'a' 0) (readingsAt 2) ∧
      Accepted sharedSecret s (familyToken 'b' 1) (readingsAt 2) := by
  intro _ _
  obtain ⟨s, ran⟩ : ∃ s, (authMachine sharedSecret noLimiter).run
      { tables := {}, store := (), now := 0 } rotatedOnce = some s := ⟨_, rfl⟩
  have reached := rotatedOnce_reach s ran
  cases ran
  refine ⟨_, rfl, ?_, ?_⟩
  · refine fun accepted => ?_
    obtain ⟨pair, ok⟩ := (refresh_succeeds_iff sharedSecret noLimiter _ reached
      (familyToken 'a' 0) (readingsAt 2) ⟨repeatedUuid 'c', repeatedUuid 'g'⟩
      ⟨by decide, by decide, fun _ _ _ =>
        ⟨_, List.mem_cons_of_mem _ List.mem_cons_self, _, rfl, .inr rfl⟩⟩).1.mpr accepted
    cases ok
  · exact (refresh_succeeds_iff sharedSecret noLimiter _ reached (familyToken 'b' 1)
      (readingsAt 2) ⟨repeatedUuid 'c', repeatedUuid 'g'⟩ ⟨by decide, by decide,
        fun _ _ _ => ⟨_, List.mem_cons_self, _, rfl, .inr rfl⟩⟩).1.mp ⟨_, rfl⟩

end LogLens
