import LogLens.RefreshHistory
import LogLens.UserRequests

/-! Registrations at any interleaving, with each other, with the seed and with the requests of
admins: an email gets one account, and each registration learns whether it is its own. -/

namespace LogLens
open LabelledMachine RowVersions

section Invariant
variable {τ ι : Type}

/-- A row of `users`, committed or not. -/
def UserRun.Version (s : UserRun ι) (k : Nat) (row : User) : Prop :=
  s.rows.committed k = some row ∨ ∃ j, s.rows.uncommitted k = some (j, row)

/-- Ids come from the sequence, and emails are unique. -/
structure UserRows (s : UserRun ι) : Prop where
  keyed : ∀ k row, s.Version k row → row.id = k
  bound : ∀ k row, s.Version k row → k < s.nextUserId
  emails : ∀ k k' row row', s.Version k row → s.Version k' row' → row.email = row'.email → k = k'

/-- A committed row stays, and keeps its credentials. -/
def UserRun.Keeps (s t : UserRun ι) : Prop :=
  ∀ k row, s.rows.committed k = some row → ∃ row', t.rows.committed k = some row' ∧
    row'.email = row.email ∧ row'.passwordHash = row.passwordHash

variable [Platform] (requests : ι → UserRequest τ)

/-- A PATCH of the user -/
def Administers (i : ι) (userId : Nat) : Prop :=
  ∃ token now change, requests i = .administer token now userId change

/-- An uncommitted row is the one its writer inserts, or an edit of the committed one. -/
inductive UserPending (s : UserRun ι) (j : ι) (k : Nat) (row : User) : Prop
  | inserted : (requests j).newUser k = some row → s.rows.committed k = none →
    UserPending s j k row
  | edited {token : τ} {now : Timestamp} {change : UserEdit} {base : User} :
    requests j = .administer token now k change → s.rows.committed k = some base →
    row = change.edit base → UserPending s j k row

/-- The account that a request inserted is committed. -/
def AccountKept (s : UserRun ι) (i : ι) (user : User) : Prop :=
  (requests i).newUser user.id = some user ∧ ∃ row, s.rows.committed user.id = some row ∧
    row.email = user.email ∧ row.passwordHash = user.passwordHash

/-- What holds of a request between two statements. -/
def UserPhaseHolds (s : UserRun ι) (i : ι) : UserPhase → Prop
  | .start => True
  | .insert => (requests i).Creates
  | .selectTarget _ => ∃ userId, Administers requests i userId
  | .flush _ => ∃ userId, Administers requests i userId
  | .refresh userId => Administers requests i userId ∨
    ((requests i).Creates ∧ ∃ row, s.rows.uncommitted userId = some (i, row))
  | .commit answer => Administers requests i answer.id ∨
    ((requests i).Creates ∧ s.rows.uncommitted answer.id = some (i, answer))
  | .finished (.ok (some answer)) => Administers requests i answer.id ∨
    AccountKept requests s i answer
  | .finished (.ok none) => ∃ email hashed, requests i = .seedAdmin email hashed
  | .finished (.error e) => e = .app duplicateEmailError → ∀ payload hashed,
    requests i = .register payload hashed → ∃ k row, s.rows.committed k = some row ∧
      row.email = Platform.lower (strip payload.email)

/-- The account a request is about to return, or has returned. -/
def UserPhase.account : UserPhase → Option Nat
  | .refresh userId => some userId
  | .commit answer | .finished (.ok (some answer)) => some answer.id
  | _ => none

structure UserInvariant (s : UserRun ι) : Prop extends UserRows s where
  pending : ∀ k j row, s.rows.uncommitted k = some (j, row) → UserPending requests s j k row ∧
    (s.phase j = .refresh k ∨ ∃ answer, s.phase j = .commit answer ∧ answer.id = k)
  phases : ∀ i, UserPhaseHolds requests s i (s.phase i)
  owners : ∀ i j k, (requests i).Creates → (requests j).Creates →
    (s.phase i).account = some k → (s.phase j).account = some k → i = j

/-- No request under way, and a table with its keys. -/
def UserRun.Initial (s : UserRun ι) : Prop :=
  UserRows s ∧ (∀ k, s.rows.uncommitted k = none) ∧ s.phase = fun _ => .start

variable {requests} {s t : UserRun ι} {i j : ι}

theorem userInvariant_initial (initial : s.Initial) : UserInvariant requests s where
  toUserRows := initial.1
  pending := by
    intro k j row version
    rw [initial.2.1] at version
    cases version
  phases := by
    rw [initial.2.2]
    exact fun _ => trivial
  owners := by
    rw [initial.2.2]
    rintro i j k - - ⟨⟩

theorem Administers.not_creates {userId : Nat} (administers : Administers requests i userId) :
    ¬ (requests i).Creates := by
  obtain ⟨token, now, change, request⟩ := administers
  intro creates
  exact creates 0 (by rw [request]; rfl)

omit [Platform] in
theorem UserRun.Keeps.refl (s : UserRun ι) : s.Keeps s := fun _ row here => ⟨row, here, rfl, rfl⟩

/-- What another request's step leaves to request `i`. -/
theorem UserPhaseHolds.framed (keeps : s.Keeps t)
    (own : ∀ k row, s.rows.uncommitted k = some (i, row) → t.rows.uncommitted k = some (i, row))
    {phase : UserPhase} (holds : UserPhaseHolds requests s i phase) :
    UserPhaseHolds requests t i phase := by
  cases phase with
  | start => trivial
  | insert | selectTarget | flush => exact holds
  | refresh userId =>
    exact holds.imp_right fun ⟨creates, row, version⟩ => ⟨creates, row, own _ row version⟩
  | commit answer =>
    exact holds.imp_right fun ⟨creates, version⟩ => ⟨creates, own _ _ version⟩
  | finished answer =>
    cases answer with
    | error e =>
      intro duplicate payload hashed request
      obtain ⟨k, row, here, email⟩ := holds duplicate payload hashed request
      obtain ⟨row', here', same, -⟩ := keeps k row here
      exact ⟨k, row', here', same.trans email⟩
    | ok returned =>
      cases returned with
      | none => exact holds
      | some answer =>
        refine holds.imp_right fun ⟨inserted, row, here, email, hashed⟩ => ?_
        obtain ⟨row', here', email', hashed'⟩ := keeps _ row here
        exact ⟨inserted, row', here', email'.trans email, hashed'.trans hashed⟩

omit [Platform] in
/-- The rows keep their keys when the versions are old ones, or edits of them. -/
theorem UserRows.of_versions (holds : UserRows s) (later : s.nextUserId ≤ t.nextUserId)
    (old : ∀ k row, t.Version k row →
      ∃ row', s.Version k row' ∧ row'.id = row.id ∧ row'.email = row.email) : UserRows t where
  keyed k row version := by
    obtain ⟨row', version', same, -⟩ := old k row version
    exact same.symm.trans (holds.keyed k row' version')
  bound k row version := by
    obtain ⟨row', version', -⟩ := old k row version
    exact lt_of_lt_of_le (holds.bound k row' version') later
  emails k k' row row' version version' same := by
    obtain ⟨old₁, version₁, -, email₁⟩ := old k row version
    obtain ⟨old₂, version₂, -, email₂⟩ := old k' row' version'
    exact holds.emails k k' old₁ old₂ version₁ version₂ (by rw [email₁, email₂, same])

section Steps
variable [DecidableEq ι]

/-- A step of `i` to a phase, under which the versions of the others stay. -/
theorem UserInvariant.step (holds : UserInvariant requests s) (rows : UserRows t)
    {phase : UserPhase} (moved : t.phase = Function.update s.phase i phase) (keeps : s.Keeps t)
    (others : ∀ j ≠ i, ∀ k row,
      t.rows.uncommitted k = some (j, row) ↔ s.rows.uncommitted k = some (j, row))
    (bases : ∀ j ≠ i, ∀ k row, s.rows.uncommitted k = some (j, row) →
      t.rows.committed k = s.rows.committed k)
    (pending : ∀ k row, t.rows.uncommitted k = some (i, row) → UserPending requests t i k row ∧
      (phase = .refresh k ∨ ∃ answer, phase = .commit answer ∧ answer.id = k))
    (here : UserPhaseHolds requests t i phase)
    (owns : ∀ k, (requests i).Creates → phase.account = some k →
      (s.phase i).account = some k ∨ s.nextUserId ≤ k)
    (bounds : ∀ j k, (requests j).Creates → (s.phase j).account = some k → k < s.nextUserId) :
    UserInvariant requests t where
  toUserRows := rows
  pending := by
    intro k j row version
    by_cases own : j = i
    · subst own
      rw [moved, Function.update_self]
      exact pending k row version
    · have old := (others j own k row).mp version
      obtain ⟨which, standing⟩ := holds.pending k j row old
      rw [moved, Function.update_of_ne own]
      refine ⟨?_, standing⟩
      cases which with
      | inserted inserted vacant => exact .inserted inserted ((bases j own k row old).trans vacant)
      | edited request base same =>
        exact .edited request ((bases j own k row old).trans base) same
  phases := by
    intro j
    rw [moved]
    by_cases own : j = i
    · subst own
      rwa [Function.update_self]
    · rw [Function.update_of_ne own]
      exact (holds.phases j).framed keeps fun k row => (others j own k row).mpr
  owners := by
    -- a fresh id is no other request's
    have fresh : ∀ j ≠ i, ∀ k, (requests i).Creates → (requests j).Creates →
        phase.account = some k → (s.phase j).account = some k → False := by
      intro j other k creates creates' owned owned'
      obtain old | new := owns k creates owned
      · exact other (holds.owners j i k creates' creates owned' old)
      · exact absurd (bounds j k creates' owned') (Nat.not_lt.mpr new)
    intro j j' k creates creates' owned owned'
    rw [moved] at owned owned'
    by_cases own : j = i
    · by_cases own' : j' = i
      · rw [own, own']
      · subst own
        rw [Function.update_self] at owned
        rw [Function.update_of_ne own'] at owned'
        exact (fresh j' own' k creates creates' owned owned').elim
    · rw [Function.update_of_ne own] at owned
      by_cases own' : j' = i
      · subst own'
        rw [Function.update_self] at owned'
        exact (fresh j own k creates' creates owned' owned).elim
      · rw [Function.update_of_ne own'] at owned'
        exact holds.owners j j' k creates creates' owned owned'

omit [DecidableEq ι] in
theorem UserInvariant.account_bound (holds : UserInvariant requests s) {k : Nat}
    (creates : (requests i).Creates) (owned : (s.phase i).account = some k) :
    k < s.nextUserId := by
  have here := holds.phases i
  cases phase : s.phase i with
  | start | insert | selectTarget | flush =>
    rw [phase] at owned
    cases owned
  | refresh userId =>
    rw [phase] at owned here
    cases owned
    obtain administers | ⟨-, row, version⟩ := here
    · exact absurd creates administers.not_creates
    · exact holds.bound k row (.inr ⟨i, version⟩)
  | commit answer =>
    rw [phase] at owned here
    cases owned
    obtain administers | ⟨-, version⟩ := here
    · exact absurd creates administers.not_creates
    · exact holds.bound _ answer (.inr ⟨i, version⟩)
  | finished answer =>
    rw [phase] at owned here
    match answer, owned, here with
    | .ok (some answer), rfl, .inl administers => exact absurd creates administers.not_creates
    | .ok (some answer), rfl, .inr ⟨_, row, found, _⟩ => exact holds.bound _ row (.inl found)

omit [DecidableEq ι] in
/-- A request that has written a row is about to read or to commit it. -/
theorem UserInvariant.unwritten (holds : UserInvariant requests s) {k : Nat} {row : User}
    (version : s.rows.uncommitted k = some (i, row)) :
    s.phase i = .refresh k ∨ ∃ answer, s.phase i = .commit answer ∧ answer.id = k :=
  (holds.pending k i row version).2

theorem UserInvariant.goto (holds : UserInvariant requests s) {phase : UserPhase}
    (pending : ∀ k row, s.rows.uncommitted k = some (i, row) →
      phase = .refresh k ∨ ∃ answer, phase = .commit answer ∧ answer.id = k)
    (here : UserPhaseHolds requests s i phase)
    (owns : ∀ k, (requests i).Creates → phase.account = some k →
      (s.phase i).account = some k) : UserInvariant requests (s.goto i phase) := by
  refine holds.step (holds.toUserRows.of_versions (le_refl _) fun k row version =>
      ⟨row, version, rfl, rfl⟩) rfl (UserRun.Keeps.refl s) (fun _ _ _ _ => Iff.rfl) (fun _ _ _ _ _ => rfl)
    (fun k row version => ?_) ?_ (fun k creates owned => .inl (owns k creates owned))
    fun j k creates => holds.account_bound creates
  · refine ⟨?_, pending k row version⟩
    obtain ⟨inserted, vacant⟩ | ⟨request, base, same⟩ := (holds.pending k i row version).1
    · exact .inserted inserted vacant
    · exact .edited request base same
  · exact UserPhaseHolds.framed (UserRun.Keeps.refl s) (fun _ _ version => version) here

/-- Where a request reads its row, it reads the version it wrote. -/
theorem UserInvariant.reads (holds : UserInvariant requests s) {userId : Nat} {row : User}
    (phase : s.phase i = .refresh userId) (read : s.rows.afterCommit i userId = some row) :
    UserInvariant requests (s.goto i (.commit row)) := by
  have keyed : row.id = userId := by
    unfold Rows.afterCommit at read
    split at read
    · rename_i j written version
      split at read
      · cases read
        exact holds.keyed userId row (.inr ⟨j, version⟩)
      · exact holds.keyed userId row (.inl read)
    · exact holds.keyed userId row (.inl read)
  have own : ∀ written, s.rows.uncommitted userId = some (i, written) → written = row := by
    intro written version
    simp only [Rows.afterCommit, version, if_true, Option.some.injEq] at read
    exact read
  have here := holds.phases i
  rw [phase] at here
  refine holds.goto (fun k written version => ?_) ?_ (fun k creates owned => ?_)
  · obtain standing | ⟨answer, committing, -⟩ := holds.unwritten version
    · rw [phase, UserPhase.refresh.injEq] at standing
      exact .inr ⟨row, rfl, keyed.trans standing⟩
    · rw [phase] at committing
      cases committing
  · refine here.imp (fun administers => by rwa [keyed]) fun ⟨creates, written, version⟩ => ?_
    rw [own written version] at version
    exact ⟨creates, by rwa [keyed]⟩
  · cases owned
    rw [phase, keyed]
    rfl

theorem UserInvariant.moves (holds : UserInvariant requests s) {settings : Settings}
    [TokenLibrary τ] {phase : UserPhase} (move : UserMove settings requests s i phase) :
    UserInvariant requests (s.goto i phase) := by
  have idle : ∀ {p : UserPhase}, s.phase i = p → p.account = none → ∀ k row,
      s.rows.uncommitted k = some (i, row) → False := by
    intro p standing idle k row version
    obtain here | ⟨answer, here, -⟩ := holds.unwritten version <;>
      · rw [standing] at here
        rw [here] at idle
        cases idle
  cases move with
  | vacant start inserted =>
    exact holds.goto (fun k row version => (idle start rfl k row version).elim)
      (creates_of_newUser inserted) (by rintro k - ⟨⟩)
  | skips start request taken =>
    exact holds.goto (fun k row version => (idle start rfl k row version).elim)
      ⟨_, _, request⟩ (by rintro k - ⟨⟩)
  | authorizes start request =>
    exact holds.goto (fun k row version => (idle start rfl k row version).elim)
      ⟨_, _, _, _, request⟩ (by rintro k - ⟨⟩)
  | loads standing request =>
    exact holds.goto (fun k row version => (idle standing rfl k row version).elim)
      ⟨_, _, _, _, request⟩ (by rintro k - ⟨⟩)
  | unchanged standing request =>
    have administers : Administers requests i _ := ⟨_, _, _, request⟩
    exact holds.goto (fun k row version => (idle standing rfl k row version).elim)
      (.inl administers) fun k creates => absurd creates administers.not_creates
  | reads standing read => exact holds.reads standing read

theorem UserInvariant.fails (holds : UserInvariant requests s) {error : Raised} {next : Nat}
    (later : s.nextUserId ≤ next) (taken : error = .app duplicateEmailError →
      ∀ payload hashed, requests i = .register payload hashed →
        s.emailTaken (Platform.lower (strip payload.email)) = true) :
    UserInvariant requests { s.fail i error with nextUserId := next } := by
  have keeps : s.Keeps { s.fail i error with nextUserId := next } :=
    fun k row here => ⟨row, here, rfl, rfl⟩
  have versions : ∀ j k row, (s.rows.rollback i).uncommitted k = some (j, row) ↔
      s.rows.uncommitted k = some (j, row) ∧ j ≠ i := fun _ _ _ => rollback_uncommitted
  refine holds.step (holds.toUserRows.of_versions later fun k row version => ?_) rfl keeps
    (fun j other k row => (versions j k row).trans (and_iff_left other)) (fun _ _ _ _ _ => rfl)
    (fun k row version => absurd rfl ((versions i k row).mp version).2) ?_ (by rintro k - ⟨⟩)
    fun j k creates => holds.account_bound creates
  · obtain here | ⟨j, version⟩ := version
    · exact ⟨row, .inl here, rfl, rfl⟩
    · exact ⟨row, .inr ⟨j, ((versions j k row).mp version).1⟩, rfl, rfl⟩
  · intro duplicate payload hashed request
    exact emailTaken_iff.mp (taken duplicate payload hashed request)

theorem UserInvariant.refused (holds : UserInvariant requests s) {settings : Settings}
    [TokenLibrary τ] {error : Raised} (failure : UserFailure settings requests s i error)
    {next : Nat} (later : s.nextUserId ≤ next) :
    UserInvariant requests { s.fail i error with nextUserId := next } := by
  refine holds.fails later fun duplicate payload hashed register => ?_
  cases failure with
  | duplicate inserted taken =>
    rw [register] at inserted
    cases inserted
    exact taken
  | refused _ request | missing _ request =>
    rw [register] at request
    cases request
  | goneAtUpdate | goneAtRefresh => cases duplicate

omit [Platform] in
/-- The versions after a write are the old ones and the written one. -/
theorem version_write {rows : Rows Nat User ι} {k k' : Nat} {row row' : User}
    (wrote : s.rows.write i k row = some rows) (here : t.rows = rows)
    (version : t.Version k' row') : (k' = k ∧ row' = row) ∨ s.Version k' row' := by
  subst here
  obtain committed | ⟨j, version⟩ := version
  · rw [write_committed wrote] at committed
    exact .inr (.inl committed)
  · rw [write_uncommitted wrote] at version
    by_cases own : k' = k
    · subst own
      rw [Function.update_self, Option.some.injEq, Prod.mk.injEq] at version
      exact .inl ⟨rfl, version.2.symm⟩
    · rw [Function.update_of_ne own] at version
      exact .inr (.inr ⟨j, version⟩)

/-- A write by a request that had written nothing. -/
theorem UserInvariant.writes (holds : UserInvariant requests s) {rows : Rows Nat User ι} {k : Nat}
    {row : User} (wrote : s.rows.write i k row = some rows) (rowsHere : t.rows = rows)
    (phase : t.phase = Function.update s.phase i (.refresh k)) (valid : UserRows t)
    (fresh : ∀ k row, s.rows.uncommitted k ≠ some (i, row))
    (pending : UserPending requests t i k row)
    (here : UserPhaseHolds requests t i (.refresh k))
    (owns : (requests i).Creates → s.nextUserId ≤ k) : UserInvariant requests t := by
  subst rowsHere
  have same := write_committed wrote
  refine holds.step valid phase (fun k row found => ⟨row, by rwa [same], rfl, rfl⟩)
    (fun j other k row => write_foreign wrote other) (fun j other k row _ => by rw [same])
    (fun k' row' version => ?_) here (fun k' creates owned => ?_)
    fun j k creates => holds.account_bound creates
  · rw [write_uncommitted wrote] at version
    by_cases own : k' = k
    · subst own
      rw [Function.update_self, Option.some.injEq, Prod.mk.injEq] at version
      rw [← version.2]
      exact ⟨pending, .inl rfl⟩
    · rw [Function.update_of_ne own] at version
      exact absurd version (fresh k' row')
  · cases owned
    exact .inr (owns creates)

theorem UserInvariant.inserts (holds : UserInvariant requests s) {row : User}
    {rows : Rows Nat User ι} (standing : s.phase i = .insert)
    (inserted : (requests i).newUser s.nextUserId = some row)
    (free : s.emailLocked i row.email = false) (unused : s.emailTaken row.email = false)
    (wrote : s.rows.write i s.nextUserId row = some rows) :
    UserInvariant requests { s.goto i (.refresh s.nextUserId) with
      rows := rows
      nextUserId := s.nextUserId + 1 } := by
  have fresh : ∀ k row, s.rows.uncommitted k ≠ some (i, row) := by
    intro k row version
    obtain here | ⟨answer, here, -⟩ := holds.unwritten version <;>
      · rw [standing] at here
        cases here
  have vacant : s.rows.committed s.nextUserId = none := by
    cases here : s.rows.committed s.nextUserId with
    | none => rfl
    | some row => exact absurd (holds.bound _ row (.inl here)) (Nat.lt_irrefl _)
  have apart : ∀ k row', s.Version k row' → row'.email ≠ row.email := by
    rintro k row' (here | ⟨j, version⟩) same
    · exact Bool.eq_false_iff.mp unused (emailTaken_iff.mpr ⟨k, row', here, same⟩)
    · refine emailLocked_false free version ?_ same
      rintro rfl
      exact fresh k row' version
  refine holds.writes wrote rfl rfl ⟨?_, ?_, ?_⟩ fresh
    (.inserted inserted (by rwa [write_committed wrote])) ?_ fun _ => le_refl _
  · intro k row' version
    obtain ⟨rfl, rfl⟩ | old := version_write wrote rfl version
    · exact newUser_id inserted
    · exact holds.keyed k row' old
  · intro k row' version
    obtain ⟨rfl, rfl⟩ | old := version_write wrote rfl version
    · exact Nat.lt_succ_self _
    · exact Nat.lt_succ_of_lt (holds.bound k row' old)
  · intro k k' row₁ row₂ version₁ version₂ same
    obtain ⟨rfl, rfl⟩ | old₁ := version_write wrote rfl version₁ <;>
      obtain ⟨rfl, rfl⟩ | old₂ := version_write wrote rfl version₂
    · rfl
    · exact absurd same.symm (apart k' row₂ old₂)
    · exact absurd same (apart k row₁ old₁)
    · exact holds.emails k k' row₁ row₂ old₁ old₂ same
  · refine .inr ⟨creates_of_newUser inserted, row, ?_⟩
    rw [write_uncommitted wrote, Function.update_self]

theorem UserInvariant.updates (holds : UserInvariant requests s) {token : τ} {now : Timestamp}
    {userId : Nat} {change : UserEdit} {loaded row : User} {rows : Rows Nat User ι}
    (standing : s.phase i = .flush loaded)
    (request : requests i = .administer token now userId change)
    (here : s.rows.committed userId = some row)
    (wrote : s.rows.write i userId (change.edit row) = some rows) :
    UserInvariant requests { s.goto i (.refresh userId) with rows := rows } := by
  have administers : Administers requests i userId := ⟨token, now, change, request⟩
  refine holds.writes wrote rfl rfl (holds.toUserRows.of_versions (le_refl _) ?_) ?_
    (.edited request (by rwa [write_committed wrote]) rfl) (.inl administers)
    fun creates => absurd creates administers.not_creates
  · intro k row' version
    obtain ⟨rfl, rfl⟩ | old := version_write wrote rfl version
    · exact ⟨row, .inl here, (edit_userId _ _).symm, (edit_email _ _).symm⟩
    · exact ⟨row', old, rfl, rfl⟩
  · intro k row' version
    obtain here | ⟨answer, here, -⟩ := holds.unwritten version <;>
      · rw [standing] at here
        cases here

theorem UserInvariant.commit_keeps (holds : UserInvariant requests s) {phase : UserPhase} :
    s.Keeps { s.goto i phase with rows := s.rows.commit i } := by
  intro k row here
  by_cases own : ∃ row, s.rows.uncommitted k = some (i, row)
  · obtain ⟨written, version⟩ := own
    refine ⟨written, commit_own version, ?_⟩
    obtain ⟨-, vacant⟩ | ⟨-, base, rfl⟩ := (holds.pending k i written version).1
    · rw [vacant] at here
      cases here
    · rw [base, Option.some.injEq] at here
      subst here
      exact ⟨edit_email _ _, edit_passwordHash _ _⟩
  · exact ⟨row, (commit_other fun row version => own ⟨row, version⟩).trans here, rfl, rfl⟩

theorem UserInvariant.commits (holds : UserInvariant requests s) {answer : User}
    (standing : s.phase i = .commit answer) :
    UserInvariant requests
      { s.goto i (.finished (.ok (some answer))) with rows := s.rows.commit i } := by
  have after : ∀ k row, (s.rows.commit i).committed k = some row →
      s.rows.uncommitted k = some (i, row) ∨ s.rows.committed k = some row := by
    intro k row here
    by_cases own : ∃ row, s.rows.uncommitted k = some (i, row)
    · obtain ⟨written, version⟩ := own
      rw [commit_own version, Option.some.injEq] at here
      exact .inl (by rw [version, here])
    · rw [commit_other fun row version => own ⟨row, version⟩] at here
      exact .inr here
  have versions : ∀ j k row, (s.rows.commit i).uncommitted k = some (j, row) ↔
      s.rows.uncommitted k = some (j, row) ∧ j ≠ i := fun _ _ _ => commit_uncommitted
  refine holds.step (holds.toUserRows.of_versions (le_refl _) fun k row version => ?_) rfl
    holds.commit_keeps (fun j other k row => (versions j k row).trans (and_iff_left other))
    (fun j other k row version => commit_other fun row' version' => ?_)
    (fun k row version => absurd rfl ((versions i k row).mp version).2) ?_
    (fun k _ owned => .inl ?_) fun j k creates => holds.account_bound creates
  · obtain here | ⟨j, version⟩ := version
    · obtain version | old := after k row here
      · exact ⟨row, .inr ⟨i, version⟩, rfl, rfl⟩
      · exact ⟨row, .inl old, rfl, rfl⟩
    · exact ⟨row, .inr ⟨j, ((versions j k row).mp version).1⟩, rfl, rfl⟩
  · rw [version, Option.some.injEq, Prod.mk.injEq] at version'
    exact other version'.1
  · have here := holds.phases i
    rw [standing] at here
    refine here.imp_right fun ⟨creates, version⟩ => ?_
    obtain ⟨inserted, -⟩ | ⟨request, -⟩ := (holds.pending _ i answer version).1
    · exact ⟨inserted, answer, commit_own version, rfl, rfl⟩
    · exact absurd creates (Administers.not_creates ⟨_, _, _, request⟩)
  · rw [standing]
    exact owned

theorem UserInvariant.next (holds : UserInvariant requests s) {settings : Settings}
    [TokenLibrary τ] {op : UserOp ι}
    (moved : (userMachine settings requests).step s op = some t) : UserInvariant requests t := by
  cases op with
  | abort i text =>
    simp only [userMachine] at moved
    split at moved <;> cases moved
    exact holds.fails (le_refl _) (by rintro ⟨⟩)
  | step i =>
    cases user_effect moved with
    | moves move => exact holds.moves move
    | fails failure later => exact holds.refused failure later
    | inserts standing inserted free unused wrote =>
      exact holds.inserts standing inserted free unused wrote
    | updates standing request _ here wrote => exact holds.updates standing request here wrote
    | commits standing => exact holds.commits standing

/-- The only errors of a registration: its email is taken, or it was cut off. -/
def RegistrationErrors (requests : ι → UserRequest τ) (ops : List (UserOp ι)) (s : UserRun ι) :
    Prop :=
  ∀ i payload hashed e, requests i = .register payload hashed →
    s.phase i = .finished (.error e) →
    e = .app duplicateEmailError ∨ ∃ text, e = .other text ∧ .abort i text ∈ ops

theorem RegistrationErrors.next {ops : List (UserOp ι)} (errors : RegistrationErrors requests ops s)
    (holds : UserInvariant requests s) {settings : Settings} [TokenLibrary τ] {op : UserOp ι}
    (moved : (userMachine settings requests).step s op = some t) :
    RegistrationErrors requests (ops ++ [op]) t := by
  -- the answers of before
  have before : ∀ j payload hashed e, requests j = .register payload hashed →
      s.phase j = .finished (.error e) →
      e = .app duplicateEmailError ∨ ∃ text, e = .other text ∧ .abort j text ∈ ops ++ [op] := by
    intro j payload hashed e request ended
    refine (errors j payload hashed e request ended).imp_right fun ⟨text, same, aborted⟩ => ?_
    exact ⟨text, same, List.mem_append_left _ aborted⟩
  intro j payload hashed e request ended
  cases op with
  | abort i text =>
    simp only [userMachine] at moved
    split at moved <;> cases moved
    by_cases own : j = i
    · subst own
      simp only [UserRun.fail, UserRun.goto, Function.update_self] at ended
      cases ended
      exact .inr ⟨text, rfl, List.mem_append_right _ (List.mem_singleton_self _)⟩
    · simp only [UserRun.fail, UserRun.goto, Function.update_of_ne own] at ended
      exact before j payload hashed e request ended
  | step i =>
    have effect := user_effect moved
    by_cases own : j = i
    · subst own
      cases effect with
      | moves move =>
        simp only [UserRun.goto, Function.update_self] at ended
        subst ended
        cases move
      | fails failure =>
        simp only [UserRun.fail, UserRun.goto, Function.update_self] at ended
        cases ended
        cases failure with
        | duplicate inserted =>
          rw [request]
          exact .inl rfl
        | refused _ administers | missing _ administers | goneAtUpdate _ administers =>
          rw [request] at administers
          cases administers
        | goneAtRefresh standing gone =>
          have here := holds.phases j
          rw [standing] at here
          obtain ⟨token, now, change, administers⟩ | ⟨-, row, version⟩ := here
          · rw [request] at administers
            cases administers
          · simp [Rows.afterCommit, version] at gone
      | inserts | updates | commits =>
        simp only [UserRun.goto, Function.update_self] at ended
        cases ended
    · rw [effect_phase effect own] at ended
      exact before j payload hashed e request ended

/-- A committed account was there at the start, or is what a request returned. -/
def AccountSources (requests : ι → UserRequest τ) (s₀ s : UserRun ι) : Prop :=
  ∀ k row, s.rows.committed k = some row →
    (∃ row₀, s₀.rows.committed k = some row₀ ∧ row₀.email = row.email) ∨
    ∃ j user, (requests j).newUser k = some user ∧ user.email = row.email ∧
      s.phase j = .finished (.ok (some user))

/-- The account of a version that is committed now. -/
theorem AccountSources.commits {s₀ : UserRun ι} (sources : AccountSources requests s₀ s)
    (holds : UserInvariant requests s) {answer : User} (standing : s.phase i = .commit answer) :
    AccountSources requests s₀
      { s.goto i (.finished (.ok (some answer))) with rows := s.rows.commit i } := by
  have others : ∀ j ≠ i, (s.goto i (.finished (.ok (some answer)))).phase j = s.phase j :=
    fun j other => Function.update_of_ne other _ _
  have old : ∀ k row, s.rows.committed k = some row →
      (∃ row₀, s₀.rows.committed k = some row₀ ∧ row₀.email = row.email) ∨
      ∃ j user, (requests j).newUser k = some user ∧ user.email = row.email ∧
        (s.goto i (.finished (.ok (some answer)))).phase j = .finished (.ok (some user)) := by
    intro k row here
    refine (sources k row here).imp_right fun ⟨j, user, inserted, email, ended⟩ => ?_
    refine ⟨j, user, inserted, email, (others j ?_).trans ended⟩
    rintro rfl
    rw [standing] at ended
    cases ended
  intro k row here
  by_cases own : ∃ row, s.rows.uncommitted k = some (i, row)
  · obtain ⟨written, version⟩ := own
    change (s.rows.commit i).committed k = some row at here
    rw [commit_own version, Option.some.injEq] at here
    subst here
    obtain ⟨pending, standing'⟩ := holds.pending k i written version
    cases pending with
    | inserted inserted =>
      have here := holds.phases i
      rw [standing] at here standing'
      obtain ⟨⟨⟩⟩ | ⟨_, ⟨⟩, keyed⟩ := standing'
      obtain administers | ⟨-, version'⟩ := here
      · exact absurd (creates_of_newUser inserted) administers.not_creates
      · rw [keyed, version, Option.some.injEq, Prod.mk.injEq] at version'
        rw [version'.2] at inserted ⊢
        exact .inr ⟨i, answer, inserted, rfl, Function.update_self _ _ _⟩
    | @edited _ _ _ base _ before same =>
      rw [same, edit_email]
      exact old k base before
  · refine old k row ?_
    rw [← here]
    exact (commit_other fun row version => own ⟨row, version⟩).symm

/-- An unfinished request takes a step that commits nothing. -/
theorem AccountSources.kept {s₀ : UserRun ι} (sources : AccountSources requests s₀ s)
    {phase : UserPhase} (same : t.rows.committed = s.rows.committed)
    (moved : t.phase = Function.update s.phase i phase) (unfinished : (s.phase i).ended = false) :
    AccountSources requests s₀ t := by
  intro k row here
  rw [same] at here
  refine (sources k row here).imp_right fun ⟨j, user, inserted, email, ended⟩ => ?_
  refine ⟨j, user, inserted, email, ?_⟩
  rw [moved, Function.update_of_ne, ended]
  rintro rfl
  rw [ended] at unfinished
  cases unfinished

theorem AccountSources.next {s₀ : UserRun ι} (sources : AccountSources requests s₀ s)
    (holds : UserInvariant requests s) {settings : Settings} [TokenLibrary τ] {op : UserOp ι}
    (moved : (userMachine settings requests).step s op = some t) :
    AccountSources requests s₀ t := by
  cases op with
  | abort i text =>
    simp only [userMachine] at moved
    split at moved <;> cases moved
    exact sources.kept rfl rfl (Bool.eq_false_iff.mpr ‹_›)
  | step i =>
    have effect := user_effect moved
    obtain same | ⟨answer, standing, rfl⟩ := effect_committed effect
    · obtain ⟨phase, update⟩ := effect_update effect
      exact sources.kept same update (step_unfinished moved)
    · exact sources.commits holds standing

end Steps

end Invariant

section Claim
variable [Platform] {τ ι : Type} [TokenLibrary τ] [DecidableEq ι]

/-- What a registration that has ended says is so: it returns its account, a developer's, which
is committed; or the email has an account; or it was cut off. -/
def TruthfulRegistration (payload : RegisterRequest) (hashed : Str) (i : ι)
    (ops : List (UserOp ι)) (s : UserRun ι) (answer : Except Raised (Option User)) : Prop :=
  (∃ user row, answer = .ok (some user) ∧ user.email = Platform.lower (strip payload.email) ∧
      user.passwordHash = hashed ∧ user.role = .developer ∧ user.isActive = true ∧
      s.rows.committed user.id = some row ∧ row.email = user.email ∧ row.passwordHash = hashed) ∨
    (answer = .error (.app duplicateEmailError) ∧ ∃ k row, s.rows.committed k = some row ∧
      row.email = Platform.lower (strip payload.email)) ∨
    ∃ text, answer = .error (.other text) ∧ .abort i text ∈ ops

/-- In every run an email has one account at most, every registration answers the truth, of the
registrations of one email one at most gets an account, and every account was there at the start
or was returned by the request that made it. -/
theorem registration_exact (settings : Settings) (requests : ι → UserRequest τ) (s₀ s : UserRun ι)
    (initial : s₀.Initial) (ops : List (UserOp ι))
    (ran : (userMachine settings requests).run s₀ ops = some s) :
    (∀ k k' row row', s.rows.committed k = some row → s.rows.committed k' = some row' →
      row.email = row'.email → k = k') ∧
    (∀ i payload hashed answer, requests i = .register payload hashed →
      s.phase i = .finished answer → TruthfulRegistration payload hashed i ops s answer) ∧
    (∀ i j payload payload' hashed hashed' user user', requests i = .register payload hashed →
      requests j = .register payload' hashed' → s.phase i = .finished (.ok (some user)) →
      s.phase j = .finished (.ok (some user')) →
      Platform.lower (strip payload.email) = Platform.lower (strip payload'.email) → i = j) ∧
    AccountSources requests s₀ s := by
  obtain ⟨holds, errors, sources⟩ : UserInvariant requests s ∧
      RegistrationErrors requests ops s ∧ AccountSources requests s₀ s := by
    refine run_induction (P := fun ops s => UserInvariant requests s ∧
      RegistrationErrors requests ops s ∧ AccountSources requests s₀ s)
      ⟨userInvariant_initial initial, ?_, ?_⟩ ?_ ran
    · intro i payload hashed e _ ended
      rw [initial.2.2] at ended
      cases ended
    · exact fun k row here => .inl ⟨row, here, rfl⟩
    · rintro before op t u - ⟨holds, errors, sources⟩ moved
      exact ⟨holds.next moved, errors.next holds moved, sources.next holds moved⟩
  have returned : ∀ i payload hashed user, requests i = .register payload hashed →
      s.phase i = .finished (.ok (some user)) →
      (requests i).newUser user.id = some user ∧ ∃ row, s.rows.committed user.id = some row ∧
        row.email = user.email ∧ row.passwordHash = user.passwordHash := by
    intro i payload hashed user request ended
    have here := holds.phases i
    rw [ended] at here
    obtain ⟨token, now, change, administers⟩ | kept := here
    · rw [request] at administers
      cases administers
    · exact kept
  refine ⟨fun k k' row row' here here' same =>
    holds.emails k k' row row' (.inl here) (.inl here') same, ?_, ?_, sources⟩
  · intro i payload hashed answer request ended
    have here := holds.phases i
    rw [ended] at here
    match answer, here with
    | .ok none, ⟨email, hashed', seeds⟩ =>
      rw [request] at seeds
      cases seeds
    | .ok (some user), _ =>
      obtain ⟨inserted, row, found, email, same⟩ := returned i payload hashed user request ended
      rw [request] at inserted
      have parts := congrArg (Option.map fun u : User =>
        (u.email, u.passwordHash, u.role, u.isActive)) inserted
      simp only [UserRequest.newUser, Option.map_some, Option.some.injEq, Prod.mk.injEq] at parts
      exact .inl ⟨user, row, rfl, parts.1.symm, parts.2.1.symm, parts.2.2.1.symm,
        parts.2.2.2.symm, found, email, same.trans parts.2.1.symm⟩
    | .error e, taken =>
      obtain rfl | aborted := errors i payload hashed e request ended
      · exact .inr (.inl ⟨rfl, taken rfl payload hashed request⟩)
      · obtain ⟨text, rfl, mem⟩ := aborted
        exact .inr (.inr ⟨text, rfl, mem⟩)
  · intro i j payload payload' hashed hashed' user user' request request' ended ended' same
    obtain ⟨inserted, row, found, email, -⟩ := returned i payload hashed user request ended
    obtain ⟨inserted', row', found', email', -⟩ :=
      returned j payload' hashed' user' request' ended'
    have ownEmail : user.email = Platform.lower (strip payload.email) := by
      rw [request] at inserted
      exact (congrArg User.email (Option.some.inj inserted)).symm
    have ownEmail' : user'.email = Platform.lower (strip payload'.email) := by
      rw [request'] at inserted'
      exact (congrArg User.email (Option.some.inj inserted')).symm
    have sameId := holds.emails _ _ row row' (.inl found) (.inl found')
      (by rw [email, email', ownEmail, ownEmail', same])
    exact holds.owners i j user.id (creates_of_newUser inserted) (creates_of_newUser inserted')
      (by rw [ended]; rfl) (by rw [ended', sameId]; rfl)

end Claim

section Sample

/-- The state before any request, on a table. -/
def UserRun.ofTables {ι : Type} (t : AuthTables) (valid : t.UsersValid) : UserRun ι where
  rows :=
    { keys := t.users.map User.id
      nodup := valid.nodup
      committed := t.getById
      uncommitted := fun _ => none
      listed := by
        rintro k (present | absent)
        · obtain ⟨user, found⟩ := Option.ne_none_iff_exists'.mp present
          obtain ⟨mem, keyed⟩ := AuthTables.getById_some found
          exact List.mem_map.mpr ⟨user, mem, keyed⟩
        · exact absurd rfl absent }
  nextUserId := t.nextUserId

theorem ofTables_initial {ι : Type} {t : AuthTables} (valid : t.UsersValid)
    (emails : (t.users.map User.email).Nodup) : (UserRun.ofTables t valid : UserRun ι).Initial := by
  have rows : ∀ k row, (UserRun.ofTables t valid : UserRun ι).Version k row →
      row ∈ t.users ∧ row.id = k := by
    rintro k row (here | ⟨j, ⟨⟩⟩)
    exact AuthTables.getById_some here
  refine ⟨⟨fun k row version => (rows k row version).2, fun k row version => ?_, ?_⟩,
    fun _ => rfl, rfl⟩
  · obtain ⟨mem, rfl⟩ := rows k row version
    exact valid.bound row mem
  · intro k k' row row' version version' same
    obtain ⟨mem, rfl⟩ := rows k row version
    obtain ⟨mem', rfl⟩ := rows k' row' version'
    rw [List.inj_on_of_nodup_map emails mem mem' same]

/-- Two registrations of one email, written in two ways. -/
def spellings (second : Bool) : UserRequest (Claims × Str) :=
  .register ⟨if second then [' ', 'U'] else ['u'], "password".toList, samplePassword_length⟩
    "password".toList

def noUsers : UserRun Bool := .ofTables {} ⟨List.nodup_nil, by rintro _ ⟨⟩⟩

def spellingsMachine : Machine (UserRun Bool) (UserOp Bool) :=
  let _ := asciiPlatform
  let _ := openLibrary
  userMachine sharedSecret spellings

/-- Both find the email free; the INSERT of the second one fails once the first has committed. -/
theorem registration_exact_spellings :
    ∃ s, spellingsMachine.run noUsers
        (List.map .step [false, true, false, false, false, true]) = some s ∧
      s.phase true = .finished (.error (.app duplicateEmailError)) ∧
      ∃ k row, s.rows.committed k = some row ∧ row.email = ['u'] := by
  let _ := asciiPlatform
  let _ := openLibrary
  obtain ⟨s, ran⟩ : ∃ s, spellingsMachine.run noUsers
      (List.map .step [false, true, false, false, false, true]) = some s :=
    Option.isSome_iff_exists.mp (by decide)
  have refused : (spellingsMachine.run noUsers
      (List.map .step [false, true, false, false, false, true])).map (fun s => s.phase true) =
        some (.finished (.error (.app duplicateEmailError))) := by decide
  rw [ran, Option.map_some, Option.some.injEq] at refused
  have truthful := (registration_exact sharedSecret spellings noUsers s
    (ofTables_initial _ List.nodup_nil) _ ran).2.1 true _ _ _ rfl refused
  obtain ⟨user, row, ⟨⟩, -⟩ | ⟨-, taken⟩ | ⟨text, ⟨⟩, -⟩ := truthful
  exact ⟨s, ran, refused, taken⟩

end Sample

end LogLens
