import LogLens.TokenRequests

/-! A request of `TokenRequests` that meets no other one, statement by statement,
against the function of `Auth` that answers it as a whole. -/

namespace LogLens
open LabelledMachine RowVersions

section Alone
variable [Platform] {τ ι : Type} [TokenLibrary τ] (settings : Settings)

/-- A request as `AuthService` answers it alone. -/
def answerAlone : TokenRequest τ → AuthTables → TokenAnswer τ × AuthTables
  | .login user readings uuids, t =>
    let issued := issueTokenPair settings user readings uuids t
    (issued.1.map some, issued.2)
  | .refresh refreshToken readings uuids, t =>
    let refreshed := refreshSession settings refreshToken readings uuids t
    (refreshed.1.map some, refreshed.2)
  | .logout refreshToken readings, t =>
    let ended := logout settings refreshToken readings t
    ((ended.1.mapError Raised.app).map fun _ => none, ended.2)
  | .logoutAll userId readings, t => (.ok none, logoutAll userId readings t)

/-- The steps of one request. -/
def TokenOp.Own (i : ι) : TokenOp ι → Prop
  | .step j | .touch j _ => j = i
  | .abort _ | .users _ => False

variable [DecidableEq ι] (requests : ι → TokenRequest τ)

/-- By steps of its own the request ends with this answer and these committed rows. -/
def Settles (s : TokenRun τ ι) (i : ι) (answer : TokenAnswer τ)
    (rows : Str → Option RefreshToken) : Prop :=
  ∃ ops t, (∀ op ∈ ops, op.Own i) ∧ (tokenMachine settings requests).run s ops = some t ∧
    t.phase i = .finished answer ∧ t.rows.committed = rows ∧ t.users = s.users ∧
    ∀ k, t.rows.uncommitted k = none

/-- All uncommitted rows are the request's own. -/
def Writes (s : TokenRun τ ι) (i : ι) (own : Str → Option RefreshToken) : Prop :=
  ∀ k, s.rows.uncommitted k = (own k).map (Prod.mk i)

variable {settings requests} {s u : TokenRun τ ι} {i : ι} {answer : TokenAnswer τ}
  {rows own : Str → Option RefreshToken}

theorem Settles.after (op : TokenOp ι) (mine : op.Own i)
    (moved : (tokenMachine settings requests).step s op = some u) (users : u.users = s.users)
    (settles : Settles settings requests u i answer rows) :
    Settles settings requests s i answer rows := by
  obtain ⟨ops, t, all, ran, phase, committed, same, free⟩ := settles
  refine ⟨op :: ops, t, List.forall_mem_cons.mpr ⟨mine, all⟩, ?_, phase, committed,
    same.trans users, free⟩
  rw [run_cons, moved]
  exact ran

theorem settles_finished (phase : s.phase i = .finished answer)
    (free : ∀ k, s.rows.uncommitted k = none) :
    Settles settings requests s i answer s.rows.committed :=
  ⟨[], s, by simp, rfl, phase, rfl, rfl, free⟩

theorem settles_commit {event : Option TokenEvent} (phase : s.phase i = .commit event answer)
    (writes : Writes s i own) :
    Settles settings requests s i answer fun k => (own k).or (s.rows.committed k) := by
  have moved : (tokenMachine settings requests).step s (.step i) =
      some { s.goto i (.finished answer) with
        rows := s.rows.commit i
        history := event.toList ++ s.history } := by
    simp only [tokenMachine, TokenRun.step, phase]
  have committed : (s.rows.commit i).committed =
      fun k => (own k).or (s.rows.committed k) := by
    funext k
    change s.rows.afterCommit i k = _
    rw [Rows.afterCommit, writes k]
    cases own k with
    | none => rfl
    | some row => exact if_pos rfl
  have free : ∀ k, (s.rows.commit i).uncommitted k = none := by
    intro k
    change (s.rows.uncommitted k).filter _ = none
    rw [writes k]
    cases own k <;> simp
  rw [← committed]
  exact .after (.step i) rfl moved rfl (settles_finished (Function.update_self _ _ _) free)

omit [Platform] [TokenLibrary τ] in
theorem update_alone {k : Str} {row : RefreshToken} (writes : Writes s i own)
    (here : s.rows.committed k = some row) (values : RefreshToken → RefreshToken)
    (next : TokenPhase τ) :
    ∃ u, s.update i k values next = some u ∧ u.phase i = next ∧ u.users = s.users ∧
      u.rows.committed = s.rows.committed ∧
      Writes u i (Function.update own k (some (values row))) := by
  have unlocked : s.rows.lockedAgainst i k = false := by
    rw [Rows.lockedAgainst, writes k]
    cases own k <;> simp
  obtain ⟨written, wrote⟩ : ∃ written, s.rows.write i k (values row) = some written := by
    simp [Rows.write, unlocked]
  refine ⟨{ s.goto i next with rows := written }, ?_, Function.update_self _ _ _, rfl,
    write_committed wrote, fun k' => ?_⟩
  · simp [TokenRun.update, here, wrote]
  · change written.uncommitted k' = _
    rw [write_uncommitted wrote]
    by_cases same : k' = k
    · subst same
      rw [Function.update_self, Function.update_self, Option.map_some]
    · rw [Function.update_of_ne same, Function.update_of_ne same, writes k']

theorem settles_sweep {sweep : Sweep} {revokedAt : Timestamp} {remaining : List Str}
    (phase : s.phase i = .sweep sweep revokedAt remaining answer) (writes : Writes s i own)
    (nodup : remaining.Nodup)
    (matching : ∀ k ∈ remaining,
      ∃ row, s.rows.committed k = some row ∧ sweep.condition row = true) :
    Settles settings requests s i answer fun k =>
      if k ∈ remaining then (s.rows.committed k).map (sweep.values revokedAt)
      else (own k).or (s.rows.committed k) := by
  induction remaining generalizing s own with
  | nil =>
    have moved : (tokenMachine settings requests).step s (.step i) =
        some (s.goto i (.commit (some (.swept sweep)) answer)) := by
      simp only [tokenMachine, TokenRun.step, phase, if_true]
    have rest : Settles settings requests (s.goto i (.commit (some (.swept sweep)) answer)) i answer
        fun k => (own k).or (s.rows.committed k) :=
      settles_commit (Function.update_self _ _ _) writes
    simpa only [List.not_mem_nil, if_false] using rest.after (.step i) rfl moved rfl
  | cons k rest ih =>
    obtain ⟨row, here, holds⟩ := matching k List.mem_cons_self
    obtain ⟨notIn, nodup⟩ := List.nodup_cons.mp nodup
    obtain ⟨u, updated, next, users, committed, writes'⟩ := update_alone writes here
      (sweep.values revokedAt) (.sweep sweep revokedAt rest answer)
    have moved : (tokenMachine settings requests).step s (.touch i k) = some u := by
      have unlocked : s.rows.lockedAgainst i k = false := by
        rw [Rows.lockedAgainst, writes k]
        cases own k <;> simp
      simp only [tokenMachine, TokenRun.touch, phase, unlocked, here, holds, updated,
        List.mem_cons_self, List.erase_cons_head, Option.any_some, if_true, Bool.false_eq_true,
        if_false]
    have later := ih next writes' nodup fun k' hk' => by
      rw [committed]
      exact matching k' (List.mem_cons_of_mem _ hk')
    have same : (fun k' => if k' ∈ rest then (u.rows.committed k').map (sweep.values revokedAt)
        else (Function.update own k (some (sweep.values revokedAt row)) k').or
          (u.rows.committed k')) =
        fun k' => if k' ∈ k :: rest then (s.rows.committed k').map (sweep.values revokedAt)
          else (own k').or (s.rows.committed k') := by
      funext k'
      rw [committed]
      by_cases first : k' = k
      · subst first
        rw [if_neg notIn, if_pos List.mem_cons_self, Function.update_self, here, Option.some_or,
          Option.map_some]
      · have others : k' ∈ k :: rest ↔ k' ∈ rest := by
          rw [List.mem_cons]
          exact or_iff_right first
        simp only [others, Function.update_of_ne first]
    exact same ▸ later.after (.touch i k) rfl moved users

theorem settles_bulk {sweep : Sweep} {revokedAt : Timestamp}
    (phase : s.phase i = .bulk sweep revokedAt answer) (free : ∀ k, s.rows.uncommitted k = none) :
    Settles settings requests s i answer fun k => (s.rows.committed k).map fun row =>
      if sweep.condition row then sweep.values revokedAt row else row := by
  let u := s.goto i (.sweep sweep revokedAt (s.rows.matching sweep.condition) answer)
  have moved : (tokenMachine settings requests).step s (.step i) = some u := by
    simp only [tokenMachine, TokenRun.step, phase, u]
  have writes : Writes u i fun _ => none := free
  have swept : Settles settings requests u i answer _ :=
    settles_sweep (Function.update_self _ _ _) writes (s.rows.nodup.filter _)
      fun k hk => mem_matching.mp hk
  have same : (fun k => if k ∈ s.rows.matching sweep.condition then
        (s.rows.committed k).map (sweep.values revokedAt)
      else (none : Option RefreshToken).or (s.rows.committed k)) =
      fun k => (s.rows.committed k).map fun row =>
        if sweep.condition row then sweep.values revokedAt row else row := by
    funext k
    cases here : s.rows.committed k with
    | none => simp
    | some row =>
      have matched : k ∈ s.rows.matching sweep.condition ↔ sweep.condition row = true := by
        simp [mem_matching, here]
      cases holds : sweep.condition row <;> simp [matched, holds]
  exact same ▸ swept.after (.step i) rfl moved rfl

omit [Platform] [TokenLibrary τ] in
theorem flushToken_fresh (row : RefreshToken) (revokedAt : Timestamp)
    (replacedByJtiHash : Option Str) :
    flushToken row (row.revoke revokedAt replacedByJtiHash) row =
      row.revoke revokedAt replacedByJtiHash := by
  simp [flushToken, RefreshToken.revoke]

theorem settles_revoke {record : TokenRecord} {revokedAt : Timestamp} {event : Option TokenEvent}
    (phase : s.phase i = .revoke record revokedAt event answer)
    (here : s.rows.committed record.jtiHash = some record.token)
    (free : ∀ k, s.rows.uncommitted k = none) :
    Settles settings requests s i answer (Function.update s.rows.committed record.jtiHash
      (some (record.token.revoke revokedAt none))) := by
  have writes : Writes s i fun _ => none := free
  obtain ⟨u, updated, next, users, committed, writes'⟩ := update_alone writes here
    (flushToken record.token (record.token.revoke revokedAt none)) (.commit event answer)
  have moved : (tokenMachine settings requests).step s (.step i) = some u := by
    simp only [tokenMachine, TokenRun.step, phase]
    exact updated
  have same : (fun k => (Function.update (fun _ => none) record.jtiHash (some (flushToken
        record.token (record.token.revoke revokedAt none) record.token)) k).or
        (u.rows.committed k)) =
      Function.update s.rows.committed record.jtiHash
        (some (record.token.revoke revokedAt none)) := by
    funext k
    rw [committed, flushToken_fresh]
    by_cases own : k = record.jtiHash
    · subst own
      simp
    · simp [own]
  exact same ▸ (settles_commit next writes').after (.step i) rfl moved users

variable (settings requests) in
/-- The INSERT of a pair's row and the commit, or the unique key that stops them. -/
theorem settles_insert {jtiHash : Str} {row : RefreshToken} {event : TokenEvent}
    {pair : TokenResponse τ} (phase : s.phase i = .insert jtiHash row event pair)
    (writes : Writes s i own) :
    (s.rows.committed jtiHash = none → own jtiHash = none →
      Settles settings requests s i (.ok (some pair)) fun k =>
        (Function.update own jtiHash (some row) k).or (s.rows.committed k)) ∧
    (s.rows.committed jtiHash ≠ none →
      Settles settings requests s i (.error integrityError) s.rows.committed) := by
  refine ⟨fun vacant unwritten => ?_, fun taken => ?_⟩
  · have unlocked : s.rows.lockedAgainst i jtiHash = false := by
      rw [Rows.lockedAgainst, writes jtiHash, unwritten]
      rfl
    obtain ⟨written, wrote⟩ : ∃ written, s.rows.write i jtiHash row = some written := by
      simp [Rows.write, unlocked]
    let u : TokenRun τ ι :=
      { s.goto i (.commit (some event) (.ok (some pair))) with rows := written }
    have moved : (tokenMachine settings requests).step s (.step i) = some u := by
      simp only [tokenMachine, TokenRun.step, phase, vacant, wrote, Option.map_some, u]
    have writes' : Writes u i (Function.update own jtiHash (some row)) := by
      intro k
      change written.uncommitted k = _
      rw [write_uncommitted wrote]
      by_cases same : k = jtiHash
      · subst same
        rw [Function.update_self, Function.update_self, Option.map_some]
      · rw [Function.update_of_ne same, Function.update_of_ne same, writes k]
    have rest : Settles settings requests u i (.ok (some pair)) _ :=
      settles_commit (Function.update_self _ _ _) writes'
    have same : u.rows.committed = s.rows.committed := write_committed wrote
    rw [same] at rest
    exact rest.after (.step i) rfl moved rfl
  · obtain ⟨old, here⟩ := Option.ne_none_iff_exists'.mp taken
    let u : TokenRun τ ι :=
      { s.goto i (.finished (.error integrityError)) with rows := s.rows.rollback i }
    have moved : (tokenMachine settings requests).step s (.step i) = some u := by
      simp only [tokenMachine, TokenRun.step, phase, here, u]
    have free : ∀ k, u.rows.uncommitted k = none := by
      intro k
      change (s.rows.uncommitted k).filter _ = none
      rw [writes k]
      cases own k <;> simp
    have rest : Settles settings requests u i (.error integrityError) s.rows.committed :=
      settles_finished (Function.update_self _ _ _) free
    exact rest.after (.step i) rfl moved rfl

omit [DecidableEq ι] in
theorem record_row {now : Timestamp} {refreshToken : τ} {t : AuthTables} {record : TokenRecord}
    (found : getRefreshTokenRecord settings now refreshToken t = .ok record) :
    t.refreshTokens record.jtiHash = some record.token ∧ record.token.userId = record.userId := by
  unfold getRefreshTokenRecord at found
  split at found
  · cases found
  split at found
  · cases found
  dsimp only at found
  split at found
  · cases found
  rename_i token here
  split at found
  · rename_i own
    cases found
    exact ⟨here, own⟩
  · cases found

omit [Platform] [TokenLibrary τ] [DecidableEq ι] in
theorem createToken_taken {t : AuthTables} {jtiHash : Str} (taken : t.refreshTokens jtiHash ≠ none)
    (token : RefreshToken) : t.createToken jtiHash token = .error integrityError := by
  obtain ⟨old, here⟩ := Option.ne_none_iff_exists'.mp taken
  unfold AuthTables.createToken
  rw [here]

omit [Platform] [TokenLibrary τ] [DecidableEq ι] in
/-- The rows of a transaction that wrote one row and then another. -/
theorem written_twice {k k' : Str} (row row' : RefreshToken) :
    (fun j => (Function.update (Function.update (fun _ => none) k (some row)) k' (some row') j).or
      (rows j)) = Function.update (Function.update rows k (some row)) k' (some row') := by
  funext j
  by_cases second : j = k'
  · subst second
    simp
  · by_cases first : j = k
    · subst first
      simp [second]
    · simp [first, second]

theorem settles_rotate {record : TokenRecord} {readings : Readings} {uuids : Uuids}
    (phase : s.phase i = .rotate record readings uuids)
    (here : s.rows.committed record.jtiHash = some record.token)
    (free : ∀ k, s.rows.uncommitted k = none) {user : User} (owner : user.id = record.userId)
    {result : Except Raised (TokenResponse τ)} {t : AuthTables}
    (alone : rotateToken settings record user readings uuids s.snapshot = (result, t)) :
    Settles settings requests s i (result.map some) t.refreshTokens := by
  let nextJtiHash := hashRefreshTokenIdentifier uuids.jti.text
  let spent := record.token.revoke readings.check (some nextJtiHash)
  let next : RefreshToken × TokenResponse τ :=
    newPair settings record.userId (some record.familyId) readings.finish readings uuids
  have writes : Writes s i fun _ => none := free
  obtain ⟨u, updated, inserting, users, committed, writes'⟩ := update_alone writes here
    (flushToken record.token spent) (.insert nextJtiHash
      { next.1 with familyId := record.familyId } (.exchanged record.jtiHash nextJtiHash) next.2)
  rw [flushToken_fresh] at writes'
  have moved : (tokenMachine settings requests).step s (.step i) = some u := by
    simp only [tokenMachine, TokenRun.step, phase]
    exact updated
  have inserts := settles_insert settings requests inserting writes'
  unfold rotateToken at alone
  rw [owner] at alone
  cases vacant : s.rows.committed nextJtiHash with
  | none =>
    have apart : nextJtiHash ≠ record.jtiHash := by
      intro same
      rw [same, here] at vacant
      cases vacant
    have unwritten : Function.update (fun _ => none) record.jtiHash (some spent) nextJtiHash =
        none := Function.update_of_ne apart _ _
    have rest := inserts.1 (committed ▸ vacant) unwritten
    rw [written_twice, committed] at rest
    have vacant' : (s.snapshot.putToken record.jtiHash spent).refreshTokens nextJtiHash = none :=
      (AuthTables.putToken_of_ne _ apart _).trans vacant
    simp only [nextJtiHash, spent] at vacant'
    simp only [createRefreshToken, AuthTables.revokeToken,
      AuthTables.createToken_vacant _ vacant'] at alone
    obtain ⟨rfl, rfl⟩ := Prod.mk.inj alone
    exact rest.after (.step i) rfl moved users
  | some old =>
    have rest := inserts.2 (by rw [committed, vacant]; rintro ⟨⟩)
    have taken : (s.snapshot.putToken record.jtiHash spent).refreshTokens nextJtiHash ≠ none := by
      by_cases same : nextJtiHash = record.jtiHash
      · rw [same, AuthTables.putToken_self]
        rintro ⟨⟩
      · rw [AuthTables.putToken_of_ne _ same]
        change s.rows.committed nextJtiHash ≠ none
        rw [vacant]
        rintro ⟨⟩
    simp only [nextJtiHash, spent] at taken
    simp only [createRefreshToken, AuthTables.revokeToken, createToken_taken taken] at alone
    obtain ⟨rfl, rfl⟩ := Prod.mk.inj alone
    rw [committed] at rest
    exact rest.after (.step i) rfl moved users

theorem settles_login {user : User} {readings : Readings} {uuids : Uuids}
    {new : RefreshToken × TokenResponse τ}
    (pair : newPair settings user.id none readings.check readings uuids = new)
    {event : TokenEvent}
    (phase : s.phase i = .insert (hashRefreshTokenIdentifier uuids.jti.text) new.1 event new.2)
    (free : ∀ k, s.rows.uncommitted k = none)
    {result : Except Raised (TokenResponse τ)} {t : AuthTables}
    (alone : issueTokenPair settings user readings uuids s.snapshot = (result, t)) :
    Settles settings requests s i (result.map some) t.refreshTokens := by
  let jtiHash := hashRefreshTokenIdentifier uuids.jti.text
  have writes : Writes s i fun _ => none := free
  have inserts := settles_insert settings requests phase writes
  unfold issueTokenPair at alone
  cases vacant : s.rows.committed jtiHash with
  | none =>
    have rest := inserts.1 vacant rfl
    have same : (fun k => (Function.update (fun _ => none) jtiHash (some new.1) k).or
        (s.rows.committed k)) = Function.update s.rows.committed jtiHash (some new.1) := by
      funext k
      by_cases own : k = jtiHash <;> simp [own]
    have vacant' : s.snapshot.refreshTokens jtiHash = none := vacant
    simp only [jtiHash] at vacant'
    simp only [createRefreshToken, AuthTables.createToken_vacant _ vacant'] at alone
    obtain ⟨rfl, rfl⟩ := Prod.mk.inj alone
    subst pair
    rw [same] at rest
    exact rest
  | some old =>
    have taken : s.snapshot.refreshTokens jtiHash ≠ none := by
      change s.rows.committed jtiHash ≠ none
      rw [vacant]
      rintro ⟨⟩
    simp only [jtiHash] at taken
    simp only [createRefreshToken, createToken_taken taken] at alone
    obtain ⟨rfl, rfl⟩ := Prod.mk.inj alone
    exact inserts.2 taken

theorem settles_begin {phase : TokenPhase τ} {t : AuthTables} (start : s.phase i = .start)
    (first : s.begin settings (requests i) = phase)
    (same : answerAlone settings (requests i) s.snapshot = (answer, t))
    (rest : Settles settings requests (s.goto i phase) i answer t.refreshTokens) :
    Settles settings requests s i (answerAlone settings (requests i) s.snapshot).1
      (answerAlone settings (requests i) s.snapshot).2.refreshTokens := by
  have moved : (tokenMachine settings requests).step s (.step i) = some (s.goto i phase) := by
    simp only [tokenMachine, TokenRun.step, start, first]
  rw [same]
  exact rest.after (.step i) rfl moved rfl

/-- The end of `refresh_session`, from `get_by_id` on. -/
theorem settles_selectUser {record : TokenRecord} {readings : Readings} {uuids : Uuids}
    (phase : s.phase i = .selectUser record readings uuids)
    (here : s.rows.committed record.jtiHash = some record.token)
    (free : ∀ k, s.rows.uncommitted k = none)
    {done : Except Raised (TokenResponse τ) × AuthTables}
    (alone : (match s.snapshot.getById record.userId with
      | none => (.error (.app authenticationError), s.snapshot)
      | some user =>
        if user.isActive then rotateToken settings record user readings uuids s.snapshot
        else (.error (.app authenticationError), s.snapshot)) = done) :
    Settles settings requests s i (done.1.map some) done.2.refreshTokens := by
  have went (phase : TokenPhase τ) : (s.goto i phase).phase i = phase := Function.update_self _ _ _
  cases owner : s.snapshot.getById record.userId with
  | none =>
    have moved : s.step settings requests i =
        some (s.goto i (.finished (.error (.app authenticationError)))) := by
      simp only [TokenRun.step, phase, owner]
    rw [owner] at alone
    subst alone
    exact (settles_finished (went _) free).after (.step i) rfl moved rfl
  | some user =>
    rw [owner] at alone
    by_cases active : user.isActive = true
    · have moved : s.step settings requests i =
          some (s.goto i (.rotate record readings uuids)) := by
        simp only [TokenRun.step, phase, owner, if_pos active]
      simp only [if_pos active] at alone
      have rest : Settles settings requests (s.goto i (.rotate record readings uuids)) i
          (done.1.map some) done.2.refreshTokens :=
        settles_rotate (went _) here free (AuthTables.getById_some owner).2 alone
      exact rest.after (.step i) rfl moved rfl
    · have moved : s.step settings requests i =
          some (s.goto i (.finished (.error (.app authenticationError)))) := by
        simp only [TokenRun.step, phase, owner, if_neg active]
      simp only [if_neg active] at alone
      subst alone
      exact (settles_finished (went _) free).after (.step i) rfl moved rfl

/-- A refresh whose token names a row. -/
theorem settles_record {refreshToken : τ} {readings : Readings} {uuids : Uuids}
    {record : TokenRecord} (start : s.phase i = .start)
    (request : requests i = .refresh refreshToken readings uuids)
    (found : getRefreshTokenRecord settings readings.start refreshToken s.snapshot = .ok record)
    (here : s.rows.committed record.jtiHash = some record.token)
    (free : ∀ k, s.rows.uncommitted k = none) :
    Settles settings requests s i (answerAlone settings (requests i) s.snapshot).1
      (answerAlone settings (requests i) s.snapshot).2.refreshTokens := by
  have went (phase : TokenPhase τ) : (s.goto i phase).phase i = phase := Function.update_self _ _ _
  by_cases expired : record.token.expiresAt ≤ readings.check
  · have first : s.begin settings (requests i) =
        .revoke record readings.check none (.error (.app authenticationError)) := by
      simp only [request, TokenRun.begin, found, if_pos expired]
    have same : answerAlone settings (requests i) s.snapshot =
        (.error (.app authenticationError),
          s.snapshot.revokeToken record.jtiHash record.token readings.check none) := by
      simp only [request, answerAlone, refreshSession, found, if_pos expired]
      rfl
    exact settles_begin start first same (settles_revoke (went _) here free)
  by_cases revoked : record.token.revokedAt.isSome = true
  · by_cases replaced : record.token.replacedByJtiHash.isSome = true
    · have first : s.begin settings (requests i) = .bulk (.family record.token.familyId)
          readings.check (.error (.app authenticationError)) := by
        simp only [request, TokenRun.begin, found, if_neg expired, if_pos revoked, if_pos replaced]
      have same : answerAlone settings (requests i) s.snapshot =
          (.error (.app authenticationError),
            s.snapshot.revokeFamily record.token.familyId readings.check true) := by
        simp only [request, answerAlone, refreshSession, found, if_neg expired, if_pos revoked,
          if_pos replaced]
        rfl
      exact settles_begin start first same (settles_bulk (went _) free)
    · have first : s.begin settings (requests i) =
          .finished (.error (.app authenticationError)) := by
        simp only [request, TokenRun.begin, found, if_neg expired, if_pos revoked, if_neg replaced]
      have same : answerAlone settings (requests i) s.snapshot =
          (.error (.app authenticationError), s.snapshot) := by
        simp only [request, answerAlone, refreshSession, found, if_neg expired, if_pos revoked,
          if_neg replaced]
        rfl
      exact settles_begin start first same (settles_finished (went _) free)
  have first : s.begin settings (requests i) = .selectUser record readings uuids := by
    simp only [request, TokenRun.begin, found, if_neg expired, if_neg revoked]
  generalize alone : refreshSession settings refreshToken readings uuids s.snapshot = done
  have same : answerAlone settings (requests i) s.snapshot = (done.1.map some, done.2) := by
    simp only [request, answerAlone, alone]
  refine settles_begin start first same (settles_selectUser (went _) here free ?_)
  simp only [refreshSession, found, if_neg expired, if_neg revoked] at alone
  exact alone

/-- A request that meets no other one ends as `AuthService` has it alone. -/
theorem request_alone (s : TokenRun τ ι) (i : ι) (start : s.phase i = .start)
    (free : ∀ k, s.rows.uncommitted k = none) :
    Settles settings requests s i (answerAlone settings (requests i) s.snapshot).1
      (answerAlone settings (requests i) s.snapshot).2.refreshTokens := by
  have went (phase : TokenPhase τ) : (s.goto i phase).phase i = phase := Function.update_self _ _ _
  cases request : requests i with
  | login user readings uuids =>
    cases alone : issueTokenPair (τ := τ) settings user readings uuids s.snapshot with
    | mk result t =>
      have same : answerAlone settings (requests i) s.snapshot = (result.map some, t) := by
        rw [request, answerAlone, alone]
      have first := congrArg (s.begin settings) request
      exact request ▸ settles_begin start first same (settles_login rfl (went _) free alone)
  | refresh refreshToken readings uuids =>
    cases found : getRefreshTokenRecord settings readings.start refreshToken s.snapshot with
    | error e =>
      have first : s.begin settings (requests i) = .finished (.error (.app e)) := by
        rw [request, TokenRun.begin, found]
      have same : answerAlone settings (requests i) s.snapshot =
          (.error (.app e), s.snapshot) := by
        rw [request, answerAlone, refreshSession, found]
        rfl
      exact request ▸ settles_begin start first same (settles_finished (went _) free)
    | ok record =>
      have here := (record_row found).1
      exact request ▸ settles_record start request found here free
  | logout refreshToken readings =>
    cases found : getRefreshTokenRecord settings readings.start refreshToken s.snapshot with
    | error e =>
      have first : s.begin settings (requests i) = .finished (.error (.app e)) := by
        rw [request, TokenRun.begin, found]
      have same : answerAlone settings (requests i) s.snapshot =
          (.error (.app e), s.snapshot) := by
        rw [request, answerAlone, logout, found]
        rfl
      exact request ▸ settles_begin start first same (settles_finished (went _) free)
    | ok record =>
      obtain ⟨here, -⟩ := record_row found
      by_cases live : record.token.revokedAt.isNone = true
      · have first : s.begin settings (requests i) =
            .revoke record readings.check (some (.loggedOut record.jtiHash)) (.ok none) := by
          simp only [request, TokenRun.begin, found, live, if_true]
        have same : answerAlone settings (requests i) s.snapshot = (.ok none,
            s.snapshot.revokeToken record.jtiHash record.token readings.check none) := by
          simp only [request, answerAlone, logout, found, live, if_true]
          rfl
        exact request ▸ settles_begin start first same (settles_revoke (went _) here free)
      · have first : s.begin settings (requests i) = .finished (.ok none) := by
          simp only [request, TokenRun.begin, found, if_neg live]
        have same : answerAlone settings (requests i) s.snapshot = (.ok none, s.snapshot) := by
          simp only [request, answerAlone, logout, found, if_neg live]
          rfl
        exact request ▸ settles_begin start first same (settles_finished (went _) free)
  | logoutAll userId readings =>
    have first : s.begin settings (requests i) =
        .bulk (.user userId) readings.check (.ok none) := by
      rw [request, TokenRun.begin]
    have same : answerAlone settings (requests i) s.snapshot =
        (.ok none, s.snapshot.revokeAllForUser userId readings.check) := by
      rw [request]
      rfl
    exact request ▸ settles_begin start first same (settles_bulk (went _) free)

end Alone
end LogLens
