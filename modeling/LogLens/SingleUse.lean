import LogLens.TokenRequests

/-! Each refresh token is exchanged once, and a family has one live row, in the
runs where no rotation overwrites a revocation. -/

namespace LogLens
open LabelledMachine RowVersions

/-- `new` is `old` or a later version of the row. -/
structure Later (old new : RefreshToken) : Prop where
  userId : new.userId = old.userId
  familyId : new.familyId = old.familyId
  expiresAt : new.expiresAt = old.expiresAt
  revoked : old.revokedAt ≠ none → new.revokedAt ≠ none

theorem Later.refl (row : RefreshToken) : Later row row := ⟨rfl, rfl, rfl, id⟩

theorem Later.trans {a b c : RefreshToken} (h : Later a b) (h' : Later b c) : Later a c :=
  ⟨h'.userId.trans h.userId, h'.familyId.trans h.familyId, h'.expiresAt.trans h.expiresAt,
    fun revoked => h'.revoked (h.revoked revoked)⟩

theorem flushToken_later {loaded row : RefreshToken} {revokedAt : Timestamp}
    {successor : Option Str} (stands : loaded.revokedAt ≠ none → row.revokedAt ≠ none) :
    Later row (flushToken loaded (loaded.revoke revokedAt successor) row) ∧
      (flushToken loaded (loaded.revoke revokedAt successor) row).revokedAt ≠ none := by
  have revoked : (flushToken loaded (loaded.revoke revokedAt successor) row).revokedAt ≠ none := by
    by_cases same : (loaded.revoke revokedAt successor).revokedAt = loaded.revokedAt
    · simp only [flushToken, flushColumn, if_pos same]
      exact stands (by rw [← same]; rintro ⟨⟩)
    · simp only [flushToken, flushColumn, if_neg same]
      rintro ⟨⟩
  exact ⟨⟨rfl, rfl, rfl, fun _ => revoked⟩, revoked⟩

theorem values_later (sweep : Sweep) (revokedAt : Timestamp) (row : RefreshToken) :
    Later row (sweep.values revokedAt row) ∧ (sweep.values revokedAt row).revokedAt ≠ none := by
  cases sweep <;> exact ⟨⟨rfl, rfl, rfl, by rintro _ ⟨⟩⟩, by rintro ⟨⟩⟩

def TokenEvent.spent : TokenEvent → Option Str
  | .exchanged jtiHash _ => some jtiHash
  | .issued .. | .loggedOut _ | .swept _ => none

section Conditions
variable [Platform] {τ ι : Type} [TokenLibrary τ] (settings : Settings)
  (requests : ι → TokenRequest τ)

/-- A text that passes as a signed refresh token was returned by a request. -/
def UnforgedIn (s : TokenRun τ ι) (token : τ) : Prop :=
  ∀ now claims, TokenLibrary.decode now token (refreshSigningKey settings) = some claims →
    ∃ j pair, s.phase j = .finished (.ok (some pair)) ∧
      (token = pair.accessToken ∨ token = pair.refreshToken)

def Genuine (s : TokenRun τ ι) : TokenOp ι → Prop
  | .step i => s.phase i = .start →
    match requests i with
    | .refresh token _ _ | .logout token _ => UnforgedIn settings s token
    | .login .. | .logoutAll .. => True
  | .touch .. | .abort _ | .users _ => True

/-- The UPDATE of a rotation finds the committed row not revoked. -/
def RotatesLive (s : TokenRun τ ι) : TokenOp ι → Prop
  | .step i => ∀ record readings uuids, s.phase i = .rotate record readings uuids →
    ∀ row, s.rows.committed record.jtiHash = some row → row.revokedAt = none
  | .touch .. | .abort _ | .users _ => True

instance (s : TokenRun τ ι) : (op : TokenOp ι) → Decidable (RotatesLive s op)
  | .step i =>
    match phase : s.phase i with
    | .rotate record readings uuids => decidable_of_iff
        (∀ row ∈ s.rows.committed record.jtiHash, row.revokedAt = none)
        (by simp [RotatesLive, phase])
    | .start | .selectUser .. | .insert .. | .revoke .. | .bulk .. | .sweep .. | .commit ..
    | .finished _ => isTrue (by
        intro record readings uuids rotating
        rw [phase] at rotating
        cases rotating)
  | .touch .. | .abort _ | .users _ => isTrue trivial

/-- `uuid4` never draws an identifier twice, and SHA-256 keeps those drawn apart. -/
def FreshUuids : Prop :=
  ∀ i j, i ≠ j → ∀ uuids ∈ (requests i).uuids, ∀ uuids' ∈ (requests j).uuids,
    hashRefreshTokenIdentifier uuids.jti.text ≠ hashRefreshTokenIdentifier uuids'.jti.text ∧
    uuids.familyId.text ≠ uuids'.familyId.text

/-- Each token exchanged at most once, at most one live row in a family. -/
def SingleUse (s : TokenRun τ ι) : Prop :=
  (s.history.filterMap TokenEvent.spent).Nodup ∧
  ∀ familyId, (s.rows.matching (RefreshToken.liveInFamily familyId)).length ≤ 1

end Conditions

section Invariant
variable [Platform] {τ ι : Type} [TokenLibrary τ] (settings : Settings)
  (requests : ι → TokenRequest τ)

def RecordHolds (s : TokenRun τ ι) (record : TokenRecord) : Prop :=
  ∃ row, s.rows.committed record.jtiHash = some row ∧ row.userId = record.userId ∧
    row.familyId = record.familyId ∧ record.familyId ≠ [] ∧ Later record.token row

inductive RowOrigin (s : TokenRun τ ι) (i : ι) (uuids : Uuids) (jtiHash : Str)
    (row : RefreshToken) : TokenEvent → Prop
  | login {user : User} {readings : Readings} : requests i = .login user readings uuids →
    row.familyId = uuids.familyId.text →
    RowOrigin s i uuids jtiHash row (.issued jtiHash row.userId row.familyId)
  | rotation {spent : Str} {old version : RefreshToken} : s.rows.committed spent = some old →
    old.revokedAt = none → s.rows.uncommitted spent = some (i, version) →
    row.userId = old.userId → row.familyId = old.familyId →
    RowOrigin s i uuids jtiHash row (.exchanged spent jtiHash)

/-- A row a request inserts, with what its commit says and returns. -/
def Minted (s : TokenRun τ ι) (i : ι) (jtiHash : Str) (row : RefreshToken) (event : TokenEvent)
    (pair : TokenResponse τ) : Prop :=
  row.familyId ≠ [] ∧ row.revokedAt = none ∧ ∃ uuids, (requests i).uuids = some uuids ∧
    jtiHash = hashRefreshTokenIdentifier uuids.jti.text ∧
    PairFor settings uuids.jti.text row pair ∧ RowOrigin requests s i uuids jtiHash row event

def Quiet (event : Option TokenEvent) (answer : TokenAnswer τ) : Prop :=
  (∀ k u f, event ≠ some (.issued k u f)) ∧ (∀ k k', event ≠ some (.exchanged k k')) ∧
    ∀ pair, answer ≠ .ok (some pair)

def PhaseHolds (s : TokenRun τ ι) (i : ι) : TokenPhase τ → Prop
  | .start => True
  | .selectUser record _ uuids | .rotate record _ uuids =>
    RecordHolds s record ∧ record.token.revokedAt = none ∧ (requests i).uuids = some uuids
  | .insert jtiHash row event pair => Minted settings requests s i jtiHash row event pair
  | .revoke record _ event answer => RecordHolds s record ∧ Quiet event answer ∧
    (event ≠ none → record.token.revokedAt = none ∧ event = some (.loggedOut record.jtiHash))
  | .bulk _ _ answer | .sweep _ _ _ answer => ∀ pair, answer ≠ .ok (some pair)
  | .commit event answer => Quiet event answer ∨
    ∃ e pair jtiHash row, event = some e ∧ answer = .ok (some pair) ∧
      s.rows.uncommitted jtiHash = some (i, row) ∧ s.rows.committed jtiHash = none ∧
      Minted settings requests s i jtiHash row e pair
  | .finished answer => ∀ pair, answer = .ok (some pair) →
    ∃ uuids row, (requests i).uuids = some uuids ∧ row.familyId ≠ [] ∧
      s.rows.committed (hashRefreshTokenIdentifier uuids.jti.text) = some row ∧
      PairFor settings uuids.jti.text row pair

/-- An uncommitted version revokes its row, or is the one its writer inserts. -/
def LockHolds (s : TokenRun τ ι) (k : Str) (i : ι) (version : RefreshToken) : Prop :=
  (∃ old, s.rows.committed k = some old ∧ Later old version ∧ version.revokedAt ≠ none) ∨
  (s.rows.committed k = none ∧ ∃ event pair, s.phase i = .commit (some event) (.ok (some pair)) ∧
    Minted settings requests s i k version event pair)

structure TokenInvariant (s : TokenRun τ ι) : Prop where
  phases : ∀ i, PhaseHolds settings requests s i (s.phase i)
  locks : ∀ k i version, s.rows.uncommitted k = some (i, version) →
    LockHolds settings requests s k i version
  owned : ∀ k row, s.rows.committed k = some row → ∃ i uuids, (requests i).uuids = some uuids ∧
    k = hashRefreshTokenIdentifier uuids.jti.text ∧ (s.phase i).ended = true
  families : ∀ k row, s.rows.committed k = some row → ∃ i user readings uuids,
    requests i = .login user readings uuids ∧ row.familyId = uuids.familyId.text ∧
      (s.phase i).ended = true
  live : ∀ k k' row row', s.rows.committed k = some row → s.rows.committed k' = some row' →
    row.revokedAt = none → row'.revokedAt = none → row.familyId = row'.familyId → k = k'
  exchanged : ∀ k k', .exchanged k k' ∈ s.history →
    ∃ row, s.rows.committed k = some row ∧ row.revokedAt ≠ none
  once : (s.history.filterMap TokenEvent.spent).Nodup

/-- What another request's commit, write or rollback leaves to request `j`. -/
structure Framed (s t : TokenRun τ ι) (j : ι) : Prop where
  rows : ∀ k row, s.rows.committed k = some row →
    ∃ row', t.rows.committed k = some row' ∧ Later row row'
  own : ∀ k version, s.rows.uncommitted k = some (j, version) →
    t.rows.uncommitted k = some (j, version) ∧ t.rows.committed k = s.rows.committed k

variable {settings requests} {s t : TokenRun τ ι} {i j : ι}

omit [Platform] [TokenLibrary τ] in
theorem Framed.record (framed : Framed s t j) {record : TokenRecord}
    (holds : RecordHolds s record) : RecordHolds t record := by
  obtain ⟨row, here, user, family, some, later⟩ := holds
  obtain ⟨row', here', later'⟩ := framed.rows _ row here
  exact ⟨row', here', later'.userId.trans user, later'.familyId.trans family, some,
    later.trans later'⟩

theorem Framed.minted (framed : Framed s t j) {jtiHash : Str} {row : RefreshToken}
    {event : TokenEvent} {pair : TokenResponse τ}
    (holds : Minted settings requests s j jtiHash row event pair) :
    Minted settings requests t j jtiHash row event pair := by
  obtain ⟨family, live, uuids, drawn, key, signed, origin⟩ := holds
  refine ⟨family, live, uuids, drawn, key, signed, ?_⟩
  cases origin with
  | login request new => exact .login request new
  | rotation here unrevoked version user family' =>
    obtain ⟨version', same⟩ := framed.own _ _ version
    exact .rotation (same.trans here) unrevoked version' user family'

omit [Platform] in
theorem PairFor.later {jti : Str} {row row' : RefreshToken} {pair : TokenResponse τ}
    (later : Later row row') (signed : PairFor settings jti row pair) :
    PairFor settings jti row' pair := by
  obtain ⟨refresh, access⟩ := signed
  refine ⟨?_, access⟩
  rw [refresh, later.userId, later.familyId, later.expiresAt]

theorem Framed.phase (framed : Framed s t j) {phase : TokenPhase τ}
    (holds : PhaseHolds settings requests s j phase) :
    PhaseHolds settings requests t j phase := by
  cases phase with
  | start => trivial
  | selectUser record readings uuids | rotate record readings uuids =>
    exact ⟨framed.record holds.1, holds.2⟩
  | insert => exact framed.minted holds
  | revoke => exact ⟨framed.record holds.1, holds.2⟩
  | bulk | sweep => exact holds
  | commit event answer =>
    obtain quiet | ⟨e, pair, jtiHash, row, event, answer, version, vacant, minted⟩ := holds
    · exact .inl quiet
    · obtain ⟨version', same⟩ := framed.own _ _ version
      exact .inr ⟨e, pair, jtiHash, row, event, answer, version', same.trans vacant,
        framed.minted minted⟩
  | finished answer =>
    intro pair ok
    obtain ⟨uuids, row, drawn, family, here, signed⟩ := holds pair ok
    obtain ⟨row', here', later⟩ := framed.rows _ row here
    exact ⟨uuids, row', drawn, by rwa [later.familyId], here', signed.later later⟩

theorem tokenInvariant_initial : TokenInvariant settings requests ({} : TokenRun τ ι) where
  phases _ := trivial
  locks := by rintro k i version ⟨⟩
  owned := by rintro k row ⟨⟩
  families := by rintro k row ⟨⟩
  live := by rintro k k' row row' ⟨⟩
  exchanged := by rintro k k' ⟨⟩
  once := List.nodup_nil

theorem TokenInvariant.phases_update (holds : TokenInvariant settings requests s)
    [DecidableEq ι] {p : TokenPhase τ} (phase : t.phase = Function.update s.phase i p)
    (framed : ∀ j ≠ i, Framed s t j) (here : PhaseHolds settings requests t i p) :
    ∀ j, PhaseHolds settings requests t j (t.phase j) := by
  intro j
  rw [phase]
  by_cases own : j = i
  · subst own
    rwa [Function.update_self]
  · rw [Function.update_of_ne own]
    exact (framed j own).phase (holds.phases j)

theorem TokenInvariant.statement [DecidableEq ι] (holds : TokenInvariant settings requests s)
    {p : TokenPhase τ} (same : t.rows.committed = s.rows.committed)
    (phase : t.phase = Function.update s.phase i p) (history : t.history = s.history)
    (notEnded : (s.phase i).ended = false) (here : PhaseHolds settings requests t i p)
    (kept : ∀ j ≠ i, ∀ k version, s.rows.uncommitted k = some (j, version) →
      t.rows.uncommitted k = some (j, version))
    (old : ∀ j ≠ i, ∀ k version, t.rows.uncommitted k = some (j, version) →
      s.rows.uncommitted k = some (j, version))
    (own : ∀ k version, t.rows.uncommitted k = some (i, version) →
      LockHolds settings requests t k i version) : TokenInvariant settings requests t := by
  have framed : ∀ j ≠ i, Framed s t j := fun j other =>
    ⟨fun k row here => ⟨row, by rwa [same], .refl row⟩,
      fun k version locked => ⟨kept j other k version locked, by rw [same]⟩⟩
  have other : ∀ j, (s.phase j).ended = true → j ≠ i ∧ t.phase j = s.phase j := by
    intro j ended
    have different : j ≠ i := by
      rintro rfl
      rw [notEnded] at ended
      cases ended
    exact ⟨different, by rw [phase, Function.update_of_ne different]⟩
  refine ⟨holds.phases_update phase framed here, ?_, ?_, ?_, ?_, ?_, ?_⟩
  · intro k j version locked
    by_cases mine : j = i
    · subst mine
      exact own k version locked
    · obtain ⟨row, here, rest⟩ | ⟨vacant, event, pair, committing, minted⟩ :=
        holds.locks k j version (old j mine k version locked)
      · exact .inl ⟨row, by rwa [same], rest⟩
      · exact .inr ⟨by rwa [same], event, pair,
          by rw [phase, Function.update_of_ne mine, committing], (framed j mine).minted minted⟩
  · intro k row found
    rw [same] at found
    obtain ⟨j, uuids, drawn, key, ended⟩ := holds.owned k row found
    exact ⟨j, uuids, drawn, key, by rw [(other j ended).2, ended]⟩
  · intro k row found
    rw [same] at found
    obtain ⟨j, user, readings, uuids, request, family, ended⟩ := holds.families k row found
    exact ⟨j, user, readings, uuids, request, family, by rw [(other j ended).2, ended]⟩
  · rw [same]
    exact holds.live
  · rw [same, history]
    exact holds.exchanged
  · rw [history]
    exact holds.once

theorem TokenInvariant.goto [DecidableEq ι] (holds : TokenInvariant settings requests s)
    {p : TokenPhase τ} (notEnded : (s.phase i).ended = false)
    (notCommit : ∀ event answer, s.phase i ≠ .commit event answer)
    (here : PhaseHolds settings requests s i p) :
    TokenInvariant settings requests (s.goto i p) := by
  have framed : Framed s (s.goto i p) i :=
    ⟨fun k row found => ⟨row, found, .refl row⟩, fun k version locked => ⟨locked, rfl⟩⟩
  refine holds.statement rfl rfl rfl notEnded (framed.phase here) (fun _ _ _ _ locked => locked)
    (fun _ _ _ _ locked => locked) fun k version locked => ?_
  obtain revokes | ⟨-, event, pair, committing, -⟩ := holds.locks k i version locked
  · exact .inl revokes
  · exact absurd committing (notCommit _ _)

omit [Platform] [TokenLibrary τ] in
theorem update_spec [DecidableEq ι] {k : Str} {values : RefreshToken → RefreshToken}
    {p : TokenPhase τ} (updated : s.update i k values p = some t) :
    ∃ row, s.rows.committed k = some row ∧ t.rows.committed = s.rows.committed ∧
      t.rows.uncommitted = Function.update s.rows.uncommitted k (some (i, values row)) ∧
      t.phase = Function.update s.phase i p ∧ t.history = s.history ∧
      ∀ j ≠ i, ∀ k version, s.rows.uncommitted k = some (j, version) →
        t.rows.uncommitted k = some (j, version) := by
  unfold TokenRun.update at updated
  rw [Option.bind_eq_some_iff] at updated
  obtain ⟨row, found, updated⟩ := updated
  rw [Option.map_eq_some_iff] at updated
  obtain ⟨rows, wrote, rfl⟩ := updated
  exact ⟨row, found, write_committed wrote, write_uncommitted wrote, rfl, rfl,
    fun j other k version locked => write_others wrote other locked⟩

theorem TokenInvariant.update [DecidableEq ι] (holds : TokenInvariant settings requests s)
    {p : TokenPhase τ} {k : Str} {values : RefreshToken → RefreshToken}
    (notEnded : (s.phase i).ended = false)
    (notCommit : ∀ event answer, s.phase i ≠ .commit event answer)
    (updated : s.update i k values p = some t)
    (revokes : ∀ row, s.rows.committed k = some row →
      Later row (values row) ∧ (values row).revokedAt ≠ none)
    (here : ∀ row, s.rows.committed k = some row → t.rows.committed = s.rows.committed →
      t.rows.uncommitted k = some (i, values row) → PhaseHolds settings requests t i p) :
    TokenInvariant settings requests t := by
  obtain ⟨row, found, same, versions, phase, history, kept⟩ := update_spec updated
  have at_k : t.rows.uncommitted k = some (i, values row) := by rw [versions, Function.update_self]
  have elsewhere : ∀ k' ≠ k, t.rows.uncommitted k' = s.rows.uncommitted k' := fun k' different => by
    rw [versions, Function.update_of_ne different]
  refine holds.statement same phase history notEnded (here row found same at_k) kept ?_ ?_
  · intro j other k' version locked
    by_cases own : k' = k
    · subst own
      rw [at_k] at locked
      cases locked
      exact absurd rfl other
    · rwa [← elsewhere k' own]
  · intro k' version locked
    by_cases own : k' = k
    · subst own
      rw [at_k] at locked
      cases locked
      exact .inl ⟨row, same ▸ found, revokes row found⟩
    · rw [elsewhere k' own] at locked
      obtain ⟨old, found', rest⟩ | ⟨-, _, _, committing, -⟩ := holds.locks k' i version locked
      · exact .inl ⟨old, same ▸ found', rest⟩
      · exact absurd committing (notCommit _ _)

theorem TokenInvariant.rollback [DecidableEq ι] (holds : TokenInvariant settings requests s)
    {error : Raised} (notEnded : (s.phase i).ended = false) :
    TokenInvariant settings requests
      { s.goto i (.finished (.error error)) with rows := s.rows.rollback i } := by
  refine holds.statement rfl rfl rfl notEnded (by rintro pair ⟨⟩) ?_ ?_ ?_
  · intro j other k version locked
    exact rollback_uncommitted.mpr ⟨locked, other⟩
  · intro j other k version locked
    exact (rollback_uncommitted.mp locked).1
  · intro k version locked
    exact absurd rfl (rollback_uncommitted.mp locked).2

theorem TokenInvariant.insert [DecidableEq ι] (holds : TokenInvariant settings requests s)
    {k : Str} {row : RefreshToken} {event : TokenEvent} {pair : TokenResponse τ}
    (inserting : s.phase i = .insert k row event pair) (vacant : s.rows.committed k = none)
    {rows : Rows Str RefreshToken ι} (wrote : s.rows.write i k row = some rows) :
    TokenInvariant settings requests
      { s.goto i (.commit (some event) (.ok (some pair))) with rows := rows } := by
  have same := write_committed wrote
  have versions := write_uncommitted wrote
  have at_k : rows.uncommitted k = some (i, row) := by rw [versions, Function.update_self]
  have elsewhere : ∀ k' ≠ k, rows.uncommitted k' = s.rows.uncommitted k' := fun k' different => by
    rw [versions, Function.update_of_ne different]
  have minted : Minted settings requests s i k row event pair := by
    have here := holds.phases i
    rwa [inserting] at here
  have framed : Framed s
      { s.goto i (.commit (some event) (.ok (some pair))) with rows := rows } i := by
    refine ⟨fun k' row' found => ⟨row', same ▸ found, .refl row'⟩, fun k' version locked => ?_⟩
    have different : k' ≠ k := by
      rintro rfl
      obtain ⟨old, found, -⟩ | ⟨-, _, _, committing, -⟩ := holds.locks k' i version locked
      · rw [vacant] at found
        cases found
      · rw [inserting] at committing
        cases committing
    exact ⟨(elsewhere k' different).trans locked, congrFun same k'⟩
  have vacant' : rows.committed k = none := by rw [same, vacant]
  refine holds.statement same rfl rfl (by rw [inserting]; rfl)
    (.inr ⟨event, pair, k, row, rfl, rfl, at_k, vacant', framed.minted minted⟩)
    (fun j other k' version locked => write_others wrote other locked) ?_ ?_
  · intro j other k' version locked
    by_cases own : k' = k
    · subst own
      rw [at_k] at locked
      cases locked
      exact absurd rfl other
    · rwa [← elsewhere k' own]
  · intro k' version locked
    change rows.uncommitted k' = _ at locked
    by_cases own : k' = k
    · subst own
      rw [at_k] at locked
      cases locked
      exact .inr ⟨vacant', event, pair, Function.update_self _ _ _, framed.minted minted⟩
    · rw [elsewhere k' own] at locked
      obtain ⟨old, found, rest⟩ | ⟨-, _, _, committing, -⟩ := holds.locks k' i version locked
      · exact .inl ⟨old, same ▸ found, rest⟩
      · rw [inserting] at committing
        cases committing

theorem TokenInvariant.committed_cases [DecidableEq ι] (holds : TokenInvariant settings requests s)
    {k : Str} {row : RefreshToken} (found : (s.rows.commit i).committed k = some row) :
    (s.rows.committed k = some row ∧ ∀ version, s.rows.uncommitted k ≠ some (i, version)) ∨
    (∃ old, s.rows.committed k = some old ∧ Later old row ∧ row.revokedAt ≠ none) ∨
    (s.rows.committed k = none ∧ s.rows.uncommitted k = some (i, row) ∧
      ∃ event pair, s.phase i = .commit (some event) (.ok (some pair)) ∧
        Minted settings requests s i k row event pair) := by
  by_cases mine : ∃ version, s.rows.uncommitted k = some (i, version)
  · obtain ⟨version, locked⟩ := mine
    rw [commit_own locked, Option.some.injEq] at found
    subst found
    obtain revokes | ⟨vacant, rest⟩ := holds.locks k i version locked
    · exact .inr (.inl revokes)
    · exact .inr (.inr ⟨vacant, locked, rest⟩)
  · have foreign : ∀ version, s.rows.uncommitted k ≠ some (i, version) :=
      fun version locked => mine ⟨version, locked⟩
    rw [commit_other foreign] at found
    exact .inl ⟨found, foreign⟩

theorem TokenInvariant.committed_later [DecidableEq ι] (holds : TokenInvariant settings requests s)
    {k : Str} {row : RefreshToken} (found : s.rows.committed k = some row) :
    ∃ row', (s.rows.commit i).committed k = some row' ∧ Later row row' := by
  by_cases mine : ∃ version, s.rows.uncommitted k = some (i, version)
  · obtain ⟨version, locked⟩ := mine
    refine ⟨version, commit_own locked, ?_⟩
    obtain ⟨old, found', later, -⟩ | ⟨vacant, -⟩ := holds.locks k i version locked
    · rw [found, Option.some.injEq] at found'
      exact found' ▸ later
    · rw [found] at vacant
      cases vacant
  · refine ⟨row, ?_, .refl row⟩
    rw [commit_other fun version locked => mine ⟨version, locked⟩, found]

/-- A live row of another writer is not in the family of the row `i` inserts. -/
theorem TokenInvariant.apart (holds : TokenInvariant settings requests s)
    (fresh : FreshUuids requests) {event : Option TokenEvent} {answer : TokenAnswer τ}
    (committing : s.phase i = .commit event answer) {k k' : Str} {row row' : RefreshToken}
    (found : s.rows.committed k = some row) (live : row.revokedAt = none)
    (foreign : ∀ version, s.rows.uncommitted k ≠ some (i, version)) {e : TokenEvent}
    {pair : TokenResponse τ} (minted : Minted settings requests s i k' row' e pair) :
    row.familyId ≠ row'.familyId := by
  intro same
  obtain ⟨-, -, uuids, drawn, -, -, origin⟩ := minted
  cases origin with
  | login request family =>
    obtain ⟨j, user, readings, uuids', request', family', ended⟩ := holds.families k row found
    have other : i ≠ j := by
      rintro rfl
      rw [committing] at ended
      cases ended
    refine (fresh i j other uuids drawn uuids' (by rw [request']; rfl)).2 ?_
    rw [← family, ← family', same]
  | rotation spent unspent locked _ family =>
    cases holds.live _ k _ row spent found unspent live (by rw [← family, same])
    exact foreign _ locked

theorem TokenInvariant.spending (holds : TokenInvariant settings requests s) {k k' : Str}
    {answer : TokenAnswer τ} (committing : s.phase i = .commit (some (.exchanged k k')) answer) :
    ∃ row version next, s.rows.committed k = some row ∧ row.revokedAt = none ∧
      s.rows.uncommitted k = some (i, version) ∧ s.rows.uncommitted k' = some (i, next) ∧
      next.userId = row.userId ∧ next.familyId = row.familyId := by
  have ofI := holds.phases i
  rw [committing] at ofI
  obtain quiet | ⟨e, pair, _, next, same, -, inserted, -, -, -, uuids, -, -, -, origin⟩ := ofI
  · exact absurd rfl (quiet.2.1 k k')
  · cases same
    cases origin with
    | rotation found live locked user family =>
      exact ⟨_, _, next, found, live, locked, inserted, user, family⟩

theorem TokenInvariant.stays_revoked [DecidableEq ι] (holds : TokenInvariant settings requests s)
    {k : Str} (revoked : ∃ row, s.rows.committed k = some row ∧ row.revokedAt ≠ none) :
    ∃ row, (s.rows.commit i).committed k = some row ∧ row.revokedAt ≠ none := by
  obtain ⟨row, found, revoked⟩ := revoked
  obtain ⟨row', found', later⟩ := holds.committed_later found
  exact ⟨row', found', later.revoked revoked⟩

/-- A committed row that `i` has locked is revoked by its commit. -/
theorem TokenInvariant.becomes_revoked [DecidableEq ι]
    (holds : TokenInvariant settings requests s) {k : Str} {row version : RefreshToken}
    (found : s.rows.committed k = some row) (locked : s.rows.uncommitted k = some (i, version)) :
    ∃ row, (s.rows.commit i).committed k = some row ∧ row.revokedAt ≠ none := by
  obtain ⟨_, _, _, revoked⟩ | ⟨vacant, -⟩ := holds.locks k i version locked
  · exact ⟨version, commit_own locked, revoked⟩
  · rw [found] at vacant
    cases vacant

theorem TokenInvariant.commit_live [DecidableEq ι] (holds : TokenInvariant settings requests s)
    (fresh : FreshUuids requests) {event : Option TokenEvent} {answer : TokenAnswer τ}
    (committing : s.phase i = .commit event answer) {k k' : Str} {row row' : RefreshToken}
    (found : (s.rows.commit i).committed k = some row)
    (found' : (s.rows.commit i).committed k' = some row') (live : row.revokedAt = none)
    (live' : row'.revokedAt = none) (same : row.familyId = row'.familyId) : k = k' := by
  obtain ⟨found, foreign⟩ | ⟨_, _, _, revoked⟩ | ⟨-, -, _, _, -, minted⟩ :=
    holds.committed_cases found
  · obtain ⟨found', -⟩ | ⟨_, _, _, revoked⟩ | ⟨-, -, _, _, -, minted⟩ :=
      holds.committed_cases found'
    · exact holds.live k k' row row' found found' live live' same
    · exact absurd live' revoked
    · exact absurd same (holds.apart fresh committing found live foreign minted)
  · exact absurd live revoked
  · obtain ⟨found', foreign⟩ | ⟨_, _, _, revoked⟩ | ⟨-, -, _, _, -, minted'⟩ :=
      holds.committed_cases found'
    · exact absurd same.symm (holds.apart fresh committing found' live' foreign minted)
    · exact absurd live' revoked
    · obtain ⟨-, -, uuids, drawn, key, -⟩ := minted
      obtain ⟨-, -, uuids', drawn', key', -⟩ := minted'
      rw [drawn, Option.some.injEq] at drawn'
      rw [key, key', drawn']

theorem TokenInvariant.commit_once (holds : TokenInvariant settings requests s)
    {event : Option TokenEvent} {answer : TokenAnswer τ}
    (committing : s.phase i = .commit event answer) :
    ((event.toList ++ s.history).filterMap TokenEvent.spent).Nodup := by
  rw [List.filterMap_append, List.nodup_append]
  refine ⟨?_, holds.once, ?_⟩
  · cases event with
    | none => exact List.nodup_nil
    | some e =>
      cases e with
      | issued | loggedOut | swept => exact List.nodup_nil
      | exchanged => exact List.nodup_singleton _
  · rintro k new _ old rfl
    rw [List.mem_filterMap] at new old
    obtain ⟨e, he, spentNow⟩ := new
    obtain ⟨e', he', spentBefore⟩ := old
    rw [Option.mem_toList] at he
    subst he
    cases e with
    | issued | loggedOut | swept => cases spentNow
    | exchanged _ k' =>
      cases spentNow
      obtain ⟨row, version, -, found, live, -⟩ := holds.spending committing
      cases e' with
      | issued | loggedOut | swept => cases spentBefore
      | exchanged _ k'' =>
        cases spentBefore
        obtain ⟨row', found', revoked⟩ := holds.exchanged _ k'' he'
        cases found.symm.trans found'
        exact revoked live

theorem TokenInvariant.commit [DecidableEq ι] (holds : TokenInvariant settings requests s)
    (fresh : FreshUuids requests) {event : Option TokenEvent} {answer : TokenAnswer τ}
    (committing : s.phase i = .commit event answer) :
    TokenInvariant settings requests { s.goto i (.finished answer) with
      rows := s.rows.commit i
      history := event.toList ++ s.history } := by
  have ofI := holds.phases i
  rw [committing] at ofI
  have notEnded : ∀ j, (s.phase j).ended = true → j ≠ i := by
    rintro j ended rfl
    rw [committing] at ended
    cases ended
  have endedAfter : ∀ j, (s.phase j).ended = true →
      (Function.update s.phase i (.finished answer) j).ended = true := by
    intro j ended
    rw [Function.update_of_ne (notEnded j ended), ended]
  have endedI : (Function.update s.phase i (.finished answer) i).ended = true := by
    rw [Function.update_self]
    rfl
  have framed : ∀ j ≠ i, Framed s { s.goto i (.finished answer) with
      rows := s.rows.commit i, history := event.toList ++ s.history } j := by
    intro j other
    refine ⟨fun k row found => holds.committed_later found, fun k version locked => ?_⟩
    refine ⟨commit_uncommitted.mpr ⟨locked, other⟩, commit_other fun version' mine => other ?_⟩
    rw [locked, Option.some.injEq, Prod.mk.injEq] at mine
    exact mine.1
  refine ⟨holds.phases_update rfl framed ?_, ?_, ?_, ?_, ?_, ?_, holds.commit_once committing⟩
  · rintro pair rfl
    obtain quiet | ⟨e, pair', k, row, -, answered, locked, -, family, -, uuids, drawn, key, signed,
      -⟩ := ofI
    · exact absurd rfl (quiet.2.2 pair)
    · cases answered
      exact ⟨uuids, row, drawn, family, key ▸ commit_own locked, signed⟩
  · intro k j version locked
    obtain ⟨locked, other⟩ := commit_uncommitted.mp locked
    have same := ((framed j other).own k version locked).2
    obtain ⟨old, found, rest⟩ | ⟨vacant, event', pair, committing', minted⟩ :=
      holds.locks k j version locked
    · exact .inl ⟨old, same.trans found, rest⟩
    · exact .inr ⟨same.trans vacant, event', pair,
        (Function.update_of_ne other _ _).trans committing', (framed j other).minted minted⟩
  · intro k row found
    obtain ⟨found, -⟩ | ⟨old, found, -⟩ | ⟨-, -, _, _, -, -, -, uuids, drawn, key, -⟩ :=
      holds.committed_cases found
    · obtain ⟨j, uuids, drawn, key, ended⟩ := holds.owned k _ found
      exact ⟨j, uuids, drawn, key, endedAfter j ended⟩
    · obtain ⟨j, uuids, drawn, key, ended⟩ := holds.owned k _ found
      exact ⟨j, uuids, drawn, key, endedAfter j ended⟩
    · exact ⟨i, uuids, drawn, key, endedI⟩
  · intro k row found
    obtain ⟨found, -⟩ | ⟨old, found, later, -⟩ | ⟨-, -, _, _, -, -, -, uuids, -, -, -, origin⟩ :=
      holds.committed_cases found
    · obtain ⟨j, user, readings, uuids, request, family, ended⟩ := holds.families k _ found
      exact ⟨j, user, readings, uuids, request, family, endedAfter j ended⟩
    · obtain ⟨j, user, readings, uuids, request, family, ended⟩ := holds.families k _ found
      exact ⟨j, user, readings, uuids, request, later.familyId.trans family, endedAfter j ended⟩
    · cases origin with
      | login request family => exact ⟨i, _, _, uuids, request, family, endedI⟩
      | rotation spent _ _ _ sameFamily =>
        obtain ⟨j, user, readings, uuids, request, family, ended⟩ := holds.families _ _ spent
        exact ⟨j, user, readings, uuids, request, sameFamily.trans family, endedAfter j ended⟩
  · intro k k' row row' found found' live live' same
    exact holds.commit_live fresh committing found found' live live' same
  · intro k k' spent
    rw [List.mem_append, Option.mem_toList] at spent
    obtain new | old := spent
    · subst new
      obtain ⟨row, version, -, found, -, locked, -⟩ := holds.spending committing
      exact holds.becomes_revoked found locked
    · exact holds.stays_revoked (holds.exchanged k k' old)

theorem TokenInvariant.record (holds : TokenInvariant settings requests s) {token : τ}
    (unforged : UnforgedIn settings s token) {now : Timestamp} {record : TokenRecord}
    (found : getRefreshTokenRecord settings now token s.snapshot = .ok record) :
    RecordHolds s record := by
  cases decoded : TokenLibrary.decode now token (refreshSigningKey settings) with
  | none =>
    simp only [getRefreshTokenRecord, decodeRefreshToken, decoded, Option.bind_none] at found
    cases found
  | some claims =>
    obtain ⟨j, pair, finished, kind⟩ := unforged now claims decoded
    have answered := holds.phases j
    rw [finished] at answered
    obtain ⟨uuids, row, -, family, here, refresh, subject, expireAt, access⟩ := answered pair rfl
    cases kind with
    | inl isAccess =>
      rw [isAccess, access] at found
      simp only [getRefreshTokenRecord, decodeRefreshToken_access] at found
      cases found
    | inr isRefresh =>
      rw [isRefresh, refresh] at found
      simp only [getRefreshTokenRecord, decodeRefreshToken_refresh] at found
      by_cases valid : secondsOf now ≤ secondsOf row.expiresAt
      · simp only [if_pos valid, idOfStr_strOfId, TokenRun.snapshot, here, if_true,
          Except.ok.injEq] at found
        subst found
        exact ⟨row, here, rfl, rfl, family, .refl row⟩
      · simp only [if_neg valid] at found
        cases found

omit [Platform] in
/-- The token of a new pair is signed for the row inserted with it. -/
theorem newPair_signed (userId : Nat) {familyId : Option Str} {accessAt : Timestamp}
    (readings : Readings) (uuids : Uuids) {family : Str}
    (same : strOr familyId uuids.familyId.text = family) :
    PairFor settings uuids.jti.text
      { (newPair (τ := τ) settings userId familyId accessAt readings uuids).1 with
        familyId := family }
      (newPair (τ := τ) settings userId familyId accessAt readings uuids).2 := by
  subst same
  exact ⟨rfl, _, _, rfl⟩

theorem TokenInvariant.begin (holds : TokenInvariant settings requests s)
    (genuine : Genuine settings requests s (.step i)) (start : s.phase i = .start) :
    PhaseHolds settings requests s i (s.begin settings (requests i)) := by
  have texts := genuine start
  unfold TokenRun.begin
  cases request : requests i with
  | login user readings uuids =>
    exact ⟨uuids.familyId.text_ne_nil, rfl, uuids, by rw [request]; rfl, rfl,
      newPair_signed user.id readings uuids rfl, .login request rfl⟩
  | logoutAll userId readings => rintro pair ⟨⟩
  | logout token readings =>
    rw [request] at texts
    simp only
    cases found : getRefreshTokenRecord settings readings.start token s.snapshot with
    | error e => rintro pair ⟨⟩
    | ok record =>
      have loaded := holds.record texts found
      by_cases live : record.token.revokedAt.isNone = true
      · simp only [if_pos live]
        exact ⟨loaded, ⟨by rintro k u f ⟨⟩, by rintro k k' ⟨⟩, by rintro pair ⟨⟩⟩,
          fun _ => ⟨Option.isNone_iff_eq_none.mp live, rfl⟩⟩
      · simp only [if_neg live]
        rintro pair ⟨⟩
  | refresh token readings uuids =>
    rw [request] at texts
    simp only
    cases found : getRefreshTokenRecord settings readings.start token s.snapshot with
    | error e => rintro pair ⟨⟩
    | ok record =>
      have loaded := holds.record texts found
      simp only
      split
      · exact ⟨loaded, ⟨by rintro k u f ⟨⟩, by rintro k k' ⟨⟩, by rintro pair ⟨⟩⟩,
          fun some => absurd rfl some⟩
      · split
        · split
          · rintro pair ⟨⟩
          · rintro pair ⟨⟩
        · rename_i live
          rw [Bool.not_eq_true, Option.isSome_eq_false_iff, Option.isNone_iff_eq_none] at live
          exact ⟨loaded, live, by rw [request]; rfl⟩

theorem TokenInvariant.rotate [DecidableEq ι] (holds : TokenInvariant settings requests s)
    {record : TokenRecord} {readings : Readings} {uuids : Uuids}
    (rotating : s.phase i = .rotate record readings uuids)
    (live : ∀ row, s.rows.committed record.jtiHash = some row → row.revokedAt = none)
    {next : TokenPhase τ}
    (following : next = .insert (hashRefreshTokenIdentifier uuids.jti.text)
      { (newPair (τ := τ) settings record.userId (some record.familyId) readings.finish readings
          uuids).1 with
        familyId := record.familyId }
      (.exchanged record.jtiHash (hashRefreshTokenIdentifier uuids.jti.text))
      (newPair settings record.userId (some record.familyId) readings.finish readings uuids).2)
    (updated : s.update i record.jtiHash (flushToken record.token (record.token.revoke
      readings.check (some (hashRefreshTokenIdentifier uuids.jti.text)))) next = some t) :
    TokenInvariant settings requests t := by
  have here := holds.phases i
  rw [rotating] at here
  obtain ⟨⟨row, found, user, family, some, -⟩, unrevoked, drawn⟩ := here
  refine holds.update (by rw [rotating]; rfl) (by rw [rotating]; rintro _ _ ⟨⟩) updated
    (fun row' _ => flushToken_later fun revoked => absurd unrevoked revoked) ?_
  intro row' found' same locked
  cases found.symm.trans found'
  subst following
  exact ⟨some, rfl, uuids, drawn, rfl,
    newPair_signed record.userId readings uuids (strOr_some some),
    .rotation (same ▸ found) (live row found) locked user.symm family.symm⟩

theorem TokenInvariant.revoke [DecidableEq ι] (holds : TokenInvariant settings requests s)
    {record : TokenRecord} {revokedAt : Timestamp} {event : Option TokenEvent}
    {answer : TokenAnswer τ} (revoking : s.phase i = .revoke record revokedAt event answer)
    (updated : s.update i record.jtiHash
      (flushToken record.token (record.token.revoke revokedAt none)) (.commit event answer) =
      some t) :
    TokenInvariant settings requests t := by
  have here := holds.phases i
  rw [revoking] at here
  obtain ⟨⟨row, found, -, -, -, later⟩, quiet, -⟩ := here
  refine holds.update (by rw [revoking]; rfl) (by rw [revoking]; rintro _ _ ⟨⟩) updated ?_
    fun _ _ _ _ => .inl quiet
  intro row' found'
  cases found.symm.trans found'
  exact flushToken_later later.revoked

theorem TokenInvariant.step [DecidableEq ι] (holds : TokenInvariant settings requests s)
    (fresh : FreshUuids requests) (genuine : Genuine settings requests s (.step i))
    (rotatesLive : RotatesLive s (.step i)) (moved : s.step settings requests i = some t) :
    TokenInvariant settings requests t := by
  have here := holds.phases i
  unfold TokenRun.step at moved
  cases phase : s.phase i with
  | start =>
    simp only [phase, Option.some.injEq] at moved
    subst moved
    exact holds.goto (by rw [phase]; rfl) (by rw [phase]; rintro _ _ ⟨⟩)
      (holds.begin genuine phase)
  | selectUser record readings uuids =>
    rw [phase] at here
    have goto : ∀ {p}, PhaseHolds settings requests s i p →
        TokenInvariant settings requests (s.goto i p) := fun held =>
      holds.goto (by rw [phase]; rfl) (by rw [phase]; rintro _ _ ⟨⟩) held
    simp only [phase] at moved
    split at moved
    · cases moved
      exact goto (by rintro pair ⟨⟩)
    · split at moved <;> cases moved
      · exact goto here
      · exact goto (by rintro pair ⟨⟩)
  | rotate record readings uuids =>
    simp only [phase] at moved
    exact holds.rotate phase (rotatesLive record readings uuids phase) rfl moved
  | insert k row event pair =>
    simp only [phase] at moved
    split at moved
    · cases moved
      exact holds.rollback (by rw [phase]; rfl)
    · rename_i vacant
      rw [Option.map_eq_some_iff] at moved
      obtain ⟨rows, wrote, rfl⟩ := moved
      exact holds.insert phase vacant wrote
  | revoke record revokedAt event answer =>
    simp only [phase] at moved
    exact holds.revoke phase moved
  | bulk sweep revokedAt answer =>
    rw [phase] at here
    simp only [phase, Option.some.injEq] at moved
    subst moved
    exact holds.goto (by rw [phase]; rfl) (by rw [phase]; rintro _ _ ⟨⟩) here
  | sweep sweep revokedAt remaining answer =>
    rw [phase] at here
    simp only [phase] at moved
    split at moved <;> cases moved
    exact holds.goto (by rw [phase]; rfl) (by rw [phase]; rintro _ _ ⟨⟩)
      (.inl ⟨by rintro k u f ⟨⟩, by rintro k k' ⟨⟩, here⟩)
  | commit event answer =>
    simp only [phase, Option.some.injEq] at moved
    subst moved
    exact holds.commit fresh phase
  | finished answer =>
    simp only [phase] at moved
    cases moved

theorem TokenInvariant.touch [DecidableEq ι] (holds : TokenInvariant settings requests s) {k : Str}
    (moved : s.touch i k = some t) : TokenInvariant settings requests t := by
  have here := holds.phases i
  unfold TokenRun.touch at moved
  split at moved
  · rename_i sweep revokedAt remaining answer phase
    rw [phase] at here
    have notCommit : ∀ event answer, s.phase i ≠ .commit event answer := by
      rw [phase]
      rintro _ _ ⟨⟩
    split at moved
    · simp only at moved
      split at moved
      · cases moved
      · split at moved
        · exact holds.update (by rw [phase]; rfl) notCommit moved
            (fun row _ => values_later sweep revokedAt row) fun _ _ _ _ => here
        · cases moved
          exact holds.goto (by rw [phase]; rfl) notCommit here
    · cases moved
  · cases moved

theorem TokenInvariant.next [DecidableEq ι] (holds : TokenInvariant settings requests s)
    (fresh : FreshUuids requests) {op : TokenOp ι} (genuine : Genuine settings requests s op)
    (rotatesLive : RotatesLive s op) (moved : (tokenMachine settings requests).step s op = some t) :
    TokenInvariant settings requests t := by
  cases op with
  | step i => exact holds.step fresh genuine rotatesLive moved
  | touch i k => exact holds.touch moved
  | abort i =>
    change (if (s.phase i).ended then _ else _) = _ at moved
    split at moved
    · cases moved
    · rename_i notEnded
      cases moved
      exact holds.rollback (Bool.eq_false_iff.mpr notEnded)
  | users users =>
    cases moved
    have framed : ∀ j, Framed s { s with users := users } j := fun j =>
      ⟨fun k row found => ⟨row, found, .refl row⟩, fun k version locked => ⟨locked, rfl⟩⟩
    refine ⟨fun j => (framed j).phase (holds.phases j), ?_, holds.owned, holds.families, holds.live,
      holds.exchanged, holds.once⟩
    intro k j version locked
    obtain revokes | ⟨vacant, event, pair, committing, minted⟩ := holds.locks k j version locked
    · exact .inl revokes
    · exact .inr ⟨vacant, event, pair, committing, (framed j).minted minted⟩

theorem TokenInvariant.singleUse (holds : TokenInvariant settings requests s) : SingleUse s := by
  refine ⟨holds.once, fun familyId => matching_length_le_one fun k k' hk hk' => ?_⟩
  obtain ⟨row, found, live⟩ := mem_matching.mp hk
  obtain ⟨row', found', live'⟩ := mem_matching.mp hk'
  simp only [RefreshToken.liveInFamily, Bool.and_eq_true, decide_eq_true_eq,
    Option.isNone_iff_eq_none] at live live'
  exact holds.live k k' row row' found found' live.2 live'.2 (live.1.trans live'.1.symm)

/-- Refresh tokens are single-use in every run whose rotations find their row live. -/
theorem single_use_of_live [DecidableEq ι] (settings : Settings) (requests : ι → TokenRequest τ)
    (fresh : FreshUuids requests) (s : TokenRun τ ι)
    (reached : Reach (tokenMachine settings requests)
      (fun s op => Genuine settings requests s op ∧ RotatesLive s op) (· = {}) s) :
    SingleUse s := by
  have holds := reached.invariant (I := TokenInvariant settings requests)
    (by rintro _ rfl; exact tokenInvariant_initial)
    fun s t op holds met moved => holds.next fresh met.1 met.2 moved
  exact holds.singleUse

end Invariant

def sampleUser : User := { id := 1, email := ['u'], passwordHash := [] }

/-- A login and two refreshes that present its token. -/
def twoRefreshes : Fin 3 → TokenRequest (Claims × Str)
  | 0 => .login sampleUser (readingsAt 0) ⟨repeatedUuid 'a', repeatedUuid 'f'⟩
  | 1 => .refresh (familyToken 'a' 0) (readingsAt 1) ⟨repeatedUuid 'b', repeatedUuid 'g'⟩
  | 2 => .refresh (familyToken 'a' 0) (readingsAt 2) ⟨repeatedUuid 'c', repeatedUuid 'h'⟩

def TokenRequest.presented {τ : Type} : TokenRequest τ → Option τ
  | .refresh token _ _ | .logout token _ => some token
  | .login .. | .logoutAll .. => none

def TokenPhase.returned {τ : Type} : TokenPhase τ → Option τ
  | .finished (.ok (some pair)) => some pair.refreshToken
  | _ => none

/-- A request that acts presents a token that was returned. -/
def Echoes {τ ι : Type} (requests : ι → TokenRequest τ) (s : TokenRun τ ι) : TokenOp ι → Prop
  | .step i => ∀ token ∈ (requests i).presented, ∃ j, (s.phase j).returned = some token
  | .touch .. | .abort _ | .users _ => True

instance {τ : Type} {n : Nat} [DecidableEq τ] (requests : Fin n → TokenRequest τ)
    (s : TokenRun τ (Fin n)) : (op : TokenOp (Fin n)) → Decidable (Echoes requests s op)
  | .step i => inferInstanceAs
      (Decidable (∀ token ∈ (requests i).presented, ∃ j, (s.phase j).returned = some token))
  | .touch .. | .abort _ | .users _ => isTrue trivial

theorem Echoes.genuine {τ ι : Type} [TokenLibrary τ] {settings : Settings}
    {requests : ι → TokenRequest τ} {s : TokenRun τ ι} {op : TokenOp ι}
    (echoes : Echoes requests s op) : Genuine settings requests s op := by
  cases op with
  | touch | abort | users => trivial
  | step i =>
    intro _
    cases request : requests i with
    | login | logoutAll => trivial
    | refresh token readings uuids | logout token readings =>
      intro now claims _
      obtain ⟨j, returned⟩ := echoes token (by rw [request]; rfl)
      unfold TokenPhase.returned at returned
      split at returned
      · rename_i pair finished
        exact ⟨j, pair, finished, .inr (Option.some.inj returned).symm⟩
      · cases returned

def twoRefreshesMachine : Machine (TokenRun (Claims × Str) (Fin 3)) (TokenOp (Fin 3)) :=
  @tokenMachine asciiPlatform _ _ openLibrary _ sharedSecret twoRefreshes

theorem twoRefreshes_fresh : @FreshUuids asciiPlatform _ _ twoRefreshes := by
  unfold FreshUuids
  decide

/-- The second refresh reads the row after the first one committed. -/
def oneAfterOther : List (TokenOp (Fin 3)) :=
  [.users [sampleUser], .step 0, .step 0, .step 0, .step 1, .step 1, .step 1, .step 1, .step 1,
    .step 2, .step 2]

theorem single_use_oneAfterOther :
    ∃ s, twoRefreshesMachine.run {} oneAfterOther = some s ∧
      s.history.filterMap TokenEvent.spent = [(repeatedUuid 'a').text] ∧ SingleUse s := by
  obtain ⟨s, ran⟩ : ∃ s, twoRefreshesMachine.run {} oneAfterOther = some s :=
    Option.isSome_iff_exists.mp (by decide)
  have spent : (twoRefreshesMachine.run {} oneAfterOther).map
      (fun s => s.history.filterMap TokenEvent.spent) = some [(repeatedUuid 'a').text] := by decide
  rw [ran, Option.map_some, Option.some.injEq] at spent
  have reached : Reach twoRefreshesMachine (fun s op => Echoes twoRefreshes s op ∧ RotatesLive s op)
      (· = {}) s := Reach.of_run (.start rfl) (by decide) ran
  exact ⟨s, ran, spent, @single_use_of_live asciiPlatform _ _ openLibrary _ sharedSecret
    twoRefreshes twoRefreshes_fresh s
    (reached.weaken fun _ _ met => ⟨@Echoes.genuine _ _ openLibrary _ _ _ _ met.1, met.2⟩)⟩

/-- Both refreshes read the live row; the second overwrites the revocation of the first. -/
theorem single_use_fails :
    ¬ ∀ s, Reach twoRefreshesMachine
      (@Genuine _ _ openLibrary sharedSecret twoRefreshes) (· = {}) s → SingleUse s := by
  intro single
  let ops : List (TokenOp (Fin 3)) := [.users [sampleUser], .step 0, .step 0, .step 0, .step 1,
    .step 2, .step 1, .step 1, .step 1, .step 1, .step 2, .step 2, .step 2, .step 2]
  obtain ⟨s, ran⟩ : ∃ s, twoRefreshesMachine.run {} ops = some s :=
    Option.isSome_iff_exists.mp (by decide)
  have spent : (twoRefreshesMachine.run {} ops).map
      (fun s => s.history.filterMap TokenEvent.spent) =
      some [(repeatedUuid 'a').text, (repeatedUuid 'a').text] := by decide
  rw [ran, Option.map_some, Option.some.injEq] at spent
  have reached : Reach twoRefreshesMachine (Echoes twoRefreshes) (· = {}) s :=
    Reach.of_run (.start rfl) (by decide) ran
  have genuine := reached.weaken fun _ _ met =>
    @Echoes.genuine _ _ openLibrary sharedSecret _ _ _ met
  have once := (single s genuine).1
  rw [spent] at once
  exact absurd once (by decide)

end LogLens
