import LogLens.CurrentUser
import LogLens.Library.LabelledMachine
import LogLens.Library.RowVersions

/-! The requests that write `users`, each in its own session, statement by statement at
READ COMMITTED: `register`, `scripts/seed_admin_user.py`, and the two endpoints of an admin. Users
are never deleted. -/

namespace LogLens
open LabelledMachine RowVersions

/-- The bodies of the two PATCH endpoints. -/
inductive UserEdit
  | updateRole (role : UserRole)
  | updateStatus (isActive : Bool)
  deriving DecidableEq

/-- The assignment to the loaded object. -/
def UserEdit.edit : UserEdit → User → User
  | .updateRole role, user => { user with role := role }
  | .updateStatus isActive, user => { user with isActive := isActive }

/-- The columns a flush writes are those that differ from the loaded ones. -/
def flushUser (loaded changed row : User) : User :=
  { row with
    role := flushColumn loaded.role changed.role row.role
    isActive := flushColumn loaded.isActive changed.isActive row.isActive }

/-- `hashed` is what `hash_password` made of the password. -/
inductive UserRequest (τ : Type)
  | register (payload : RegisterRequest) (hashed : Str)
  | seedAdmin (adminBootstrapEmail hashed : Str)
  /-- a PATCH with a bearer token, which is decoded at a time -/
  | administer (token : τ) (now : Timestamp) (userId : Nat) (change : UserEdit)

/-- The statement a request executes next, with what it has loaded. -/
inductive UserPhase
  | start
  | insert
  /-- past `require_admin_user` -/
  | selectTarget (currentUser : User)
  | flush (loaded : User)
  | refresh (userId : Nat)
  | commit (answer : User)
  /-- a seed that is skipped returns no user -/
  | finished (answer : Except Raised (Option User))
  deriving DecidableEq

def UserPhase.ended : UserPhase → Bool
  | .finished _ => true
  | _ => false

structure UserRun (ι : Type) where
  /-- `users` by id -/
  rows : Rows Nat User ι
  nextUserId : Nat
  phase : ι → UserPhase := fun _ => .start

inductive UserOp (ι : Type)
  | step (i : ι)
  /-- a statement raises, or the request is cut off -/
  | abort (i : ι) (text : Str)

/-- The row is gone at an UPDATE or a refresh. -/
def userGone : Raised := .other "row gone".toList

section Machine
variable [Platform] {τ ι : Type} [TokenLibrary τ] [DecidableEq ι] (settings : Settings)
  (requests : ι → UserRequest τ)

/-- The row a request inserts, by its id. -/
def UserRequest.newUser : UserRequest τ → Nat → Option User
  | .register payload hashed, id =>
    some { id := id, email := Platform.lower (strip payload.email), passwordHash := hashed }
  | .seedAdmin adminBootstrapEmail hashed, id =>
    some
      { id := id
        email := Platform.lower adminBootstrapEmail
        passwordHash := hashed
        role := .admin
        isActive := true }
  | .administer .., _ => none

/-- What an INSERT that meets a row of its email ends a request with. -/
def UserRequest.duplicate : UserRequest τ → Raised
  | .register .. => .app duplicateEmailError
  | .seedAdmin .. | .administer .. => integrityError

/-- `get_by_email` finds a row. -/
def UserRun.emailTaken (s : UserRun ι) (email : Str) : Bool :=
  !(s.rows.matching fun user => user.email = email).isEmpty

/-- Another transaction has an uncommitted row of the email. -/
def UserRun.emailLocked (s : UserRun ι) (i : ι) (email : Str) : Bool :=
  s.rows.keys.any fun k => (s.rows.uncommitted k).any fun version =>
    version.1 ≠ i && version.2.email = email

def UserRun.goto (s : UserRun ι) (i : ι) (phase : UserPhase) : UserRun ι :=
  { s with phase := Function.update s.phase i phase }

/-- The request raises, and its transaction is rolled back. -/
def UserRun.fail (s : UserRun ι) (i : ι) (error : Raised) : UserRun ι :=
  { s.goto i (.finished (.error error)) with rows := s.rows.rollback i }

def UserRun.write (s : UserRun ι) (i : ι) (userId : Nat) (row : User) : Option (UserRun ι) :=
  (s.rows.write i userId row).map fun rows => { s.goto i (.refresh userId) with rows := rows }

/-- `current_user` of an endpoint that takes `require_admin_user` -/
def UserRun.authorize (s : UserRun ι) (token : τ) (now : Timestamp) : Except AppError User :=
  (getCurrentUser settings now token s.rows.committed).bind requireAdminUser

def UserRun.begin (s : UserRun ι) (i : ι) : UserRequest τ → UserRun ι
  | .register payload _ =>
    if s.emailTaken (Platform.lower (strip payload.email)) then
      s.fail i (.app duplicateEmailError)
    else s.goto i .insert
  | .seedAdmin adminBootstrapEmail _ =>
    if s.emailTaken (Platform.lower adminBootstrapEmail) then s.goto i (.finished (.ok none))
    else s.goto i .insert
  | .administer token now _ _ =>
    match s.authorize settings token now with
    | .error e => s.fail i (.app e)
    | .ok currentUser => s.goto i (.selectTarget currentUser)

/-- The INSERT of `create_user`. It waits for an uncommitted row of its email, and draws its id
whether or not it goes through. -/
def UserRun.insert (s : UserRun ι) (i : ι) (request : UserRequest τ) : Option (UserRun ι) :=
  match request.newUser s.nextUserId with
  | none => none
  | some row =>
    if s.emailLocked i row.email then none
    else if s.emailTaken row.email then
      some { s.fail i request.duplicate with nextUserId := s.nextUserId + 1 }
    else
      (s.write i s.nextUserId row).map fun t => { t with nextUserId := s.nextUserId + 1 }

/-- `get_by_id` of the target; a session keeps the objects it has loaded. -/
def UserRun.target (s : UserRun ι) (currentUser : User) (userId : Nat) : Option User :=
  if userId = currentUser.id then some currentUser else s.rows.committed userId

def UserRun.selectTarget (s : UserRun ι) (i : ι) (currentUser : User) :
    UserRequest τ → Option (UserRun ι)
  | .administer _ _ userId _ =>
    match s.target currentUser userId with
    | none => some (s.fail i (.app (notFoundError "User")))
    | some loaded => some (s.goto i (.flush loaded))
  | .register .. | .seedAdmin .. => none

def UserRun.flush (s : UserRun ι) (i : ι) (loaded : User) : UserRequest τ → Option (UserRun ι)
  | .administer _ _ userId change =>
    -- an object without a change makes no UPDATE, and so takes no lock
    if change.edit loaded = loaded then some (s.goto i (.refresh userId))
    else
      match s.rows.committed userId with
      | none => some (s.fail i userGone)
      | some row => s.write i userId (flushUser loaded (change.edit loaded) row)
  | .register .. | .seedAdmin .. => none

def UserRun.step (s : UserRun ι) (i : ι) : Option (UserRun ι) :=
  match s.phase i with
  | .start => some (s.begin settings i (requests i))
  | .insert => s.insert i (requests i)
  | .selectTarget currentUser => s.selectTarget i currentUser (requests i)
  | .flush loaded => s.flush i loaded (requests i)
  | .refresh userId =>
    match s.rows.afterCommit i userId with
    | none => some (s.fail i userGone)
    | some row => some (s.goto i (.commit row))
  | .commit answer =>
    some { s.goto i (.finished (.ok (some answer))) with rows := s.rows.commit i }
  | .finished _ => none

def userMachine : Machine (UserRun ι) (UserOp ι) where
  step s
    | .step i => s.step settings requests i
    | .abort i text =>
      if (s.phase i).ended then none else some (s.fail i (.other text))

end Machine

/-- An edit writes one column, so its flush is the edit of whatever row it finds. -/
theorem flushUser_edit {change : UserEdit} {loaded : User}
    (changes : change.edit loaded ≠ loaded) (row : User) :
    flushUser loaded (change.edit loaded) row = change.edit row := by
  cases change with
  | updateRole role =>
    have differs : role ≠ loaded.role := by
      rintro rfl
      exact changes rfl
    simp [flushUser, UserEdit.edit, flushColumn_changed differs]
  | updateStatus isActive =>
    have differs : isActive ≠ loaded.isActive := by
      rintro rfl
      exact changes rfl
    simp [flushUser, UserEdit.edit, flushColumn_changed differs]

@[simp] theorem edit_userId (change : UserEdit) (user : User) :
    (change.edit user).id = user.id := by
  cases change <;> rfl

@[simp] theorem edit_email (change : UserEdit) (user : User) :
    (change.edit user).email = user.email := by
  cases change <;> rfl

@[simp] theorem edit_passwordHash (change : UserEdit) (user : User) :
    (change.edit user).passwordHash = user.passwordHash := by
  cases change <;> rfl

section Effects
variable [Platform] {τ ι : Type} [TokenLibrary τ] [DecidableEq ι] {settings : Settings}
  {requests : ι → UserRequest τ} {s t : UserRun ι} {i : ι}

/-- A register or a seed -/
def UserRequest.Creates (request : UserRequest τ) : Prop :=
  ∀ id, request.newUser id ≠ none

omit [TokenLibrary τ] [DecidableEq ι] in
theorem creates_of_newUser {k : Nat} {row : User} (inserted : (requests i).newUser k = some row) :
    (requests i).Creates := by
  intro id none
  cases request : requests i with
  | register | seedAdmin =>
    rw [request] at none
    cases none
  | administer =>
    rw [request] at inserted
    cases inserted

omit [TokenLibrary τ] [DecidableEq ι] in
theorem newUser_id {k : Nat} {row : User} (inserted : (requests i).newUser k = some row) :
    row.id = k := by
  cases request : requests i with
  | register | seedAdmin =>
    rw [request] at inserted
    cases inserted
    rfl
  | administer =>
    rw [request] at inserted
    cases inserted

omit [DecidableEq ι] [Platform] in
theorem emailTaken_iff {email : Str} :
    s.emailTaken email = true ↔ ∃ k row, s.rows.committed k = some row ∧ row.email = email := by
  unfold UserRun.emailTaken
  rw [Bool.not_eq_true', List.isEmpty_eq_false_iff_exists_mem]
  refine exists_congr fun k => ?_
  rw [mem_matching]
  simp

omit [Platform] in
theorem emailLocked_false {email : Str} (free : s.emailLocked i email = false) {k : Nat} {j : ι}
    {row : User} (version : s.rows.uncommitted k = some (j, row)) (other : j ≠ i) :
    row.email ≠ email := by
  have listed := s.rows.listed k (.inr (by rw [version]; rintro ⟨⟩))
  have here := List.any_eq_false.mp free k listed
  rw [version, Option.any_some] at here
  simpa [other] using here

/-- A step that leaves the rows as they are. -/
inductive UserMove (settings : Settings) (requests : ι → UserRequest τ) (s : UserRun ι) (i : ι) :
    UserPhase → Prop
  | vacant {row : User} : s.phase i = .start → (requests i).newUser s.nextUserId = some row →
    s.emailTaken row.email = false → UserMove settings requests s i .insert
  | skips {email hashed : Str} : s.phase i = .start → requests i = .seedAdmin email hashed →
    s.emailTaken (Platform.lower email) = true →
    UserMove settings requests s i (.finished (.ok none))
  | authorizes {token : τ} {now : Timestamp} {userId : Nat} {change : UserEdit}
    {currentUser : User} : s.phase i = .start → requests i = .administer token now userId change →
    s.authorize settings token now = .ok currentUser →
    UserMove settings requests s i (.selectTarget currentUser)
  | loads {token : τ} {now : Timestamp} {userId : Nat} {change : UserEdit}
    {currentUser loaded : User} : s.phase i = .selectTarget currentUser →
    requests i = .administer token now userId change →
    s.target currentUser userId = some loaded → UserMove settings requests s i (.flush loaded)
  | unchanged {token : τ} {now : Timestamp} {userId : Nat} {change : UserEdit} {loaded : User} :
    s.phase i = .flush loaded → requests i = .administer token now userId change →
    change.edit loaded = loaded → UserMove settings requests s i (.refresh userId)
  | reads {userId : Nat} {row : User} : s.phase i = .refresh userId →
    s.rows.afterCommit i userId = some row → UserMove settings requests s i (.commit row)

/-- Why a request fails. -/
inductive UserFailure (settings : Settings) (requests : ι → UserRequest τ) (s : UserRun ι) (i : ι) :
    Raised → Prop
  | duplicate {row : User} : (requests i).newUser s.nextUserId = some row →
    s.emailTaken row.email = true → UserFailure settings requests s i (requests i).duplicate
  | refused {token : τ} {now : Timestamp} {userId : Nat} {change : UserEdit} {e : AppError} :
    s.phase i = .start → requests i = .administer token now userId change →
    s.authorize settings token now = .error e → UserFailure settings requests s i (.app e)
  | missing {token : τ} {now : Timestamp} {userId : Nat} {change : UserEdit}
    {currentUser : User} : s.phase i = .selectTarget currentUser →
    requests i = .administer token now userId change → s.target currentUser userId = none →
    UserFailure settings requests s i (.app (notFoundError "User"))
  | goneAtUpdate {token : τ} {now : Timestamp} {userId : Nat} {change : UserEdit} {loaded : User} :
    s.phase i = .flush loaded → requests i = .administer token now userId change →
    s.rows.committed userId = none → UserFailure settings requests s i userGone
  | goneAtRefresh {userId : Nat} : s.phase i = .refresh userId →
    s.rows.afterCommit i userId = none → UserFailure settings requests s i userGone

/-- What one step of a request does. -/
inductive UserEffect (settings : Settings) (requests : ι → UserRequest τ) (s : UserRun ι) (i : ι) :
    UserRun ι → Prop
  | moves {phase : UserPhase} : UserMove settings requests s i phase →
    UserEffect settings requests s i (s.goto i phase)
  | fails {error : Raised} {next : Nat} : UserFailure settings requests s i error →
    s.nextUserId ≤ next →
    UserEffect settings requests s i { s.fail i error with nextUserId := next }
  | inserts {row : User} {rows : Rows Nat User ι} : s.phase i = .insert →
    (requests i).newUser s.nextUserId = some row → s.emailLocked i row.email = false →
    s.emailTaken row.email = false → s.rows.write i s.nextUserId row = some rows →
    UserEffect settings requests s i { s.goto i (.refresh s.nextUserId) with
      rows := rows
      nextUserId := s.nextUserId + 1 }
  | updates {token : τ} {now : Timestamp} {userId : Nat} {change : UserEdit} {loaded row : User}
    {rows : Rows Nat User ι} : s.phase i = .flush loaded →
    requests i = .administer token now userId change → change.edit loaded ≠ loaded →
    s.rows.committed userId = some row →
    s.rows.write i userId (change.edit row) = some rows →
    UserEffect settings requests s i { s.goto i (.refresh userId) with rows := rows }
  | commits {answer : User} : s.phase i = .commit answer →
    UserEffect settings requests s i
      { s.goto i (.finished (.ok (some answer))) with rows := s.rows.commit i }

omit [Platform] in
theorem write_some {userId : Nat} {row : User} (wrote : s.write i userId row = some t) :
    ∃ rows, s.rows.write i userId row = some rows ∧
      t = { s.goto i (.refresh userId) with rows := rows } := by
  obtain ⟨rows, stored, rfl⟩ := Option.map_eq_some_iff.mp wrote
  exact ⟨rows, stored, rfl⟩

theorem begin_effect (phase : s.phase i = .start) :
    UserEffect settings requests s i (s.begin settings i (requests i)) := by
  cases request : requests i with
  | register payload hashed =>
    unfold UserRun.begin
    dsimp only
    split
    · rename_i taken
      have failure : UserFailure settings requests s i (requests i).duplicate :=
        .duplicate (by rw [request]; rfl) taken
      rw [request] at failure
      exact .fails failure (le_refl _)
    · rename_i vacant
      have inserted : (requests i).newUser s.nextUserId = some
          { id := s.nextUserId
            email := Platform.lower (strip payload.email)
            passwordHash := hashed } := by
        rw [request]
        rfl
      exact .moves (.vacant phase inserted (Bool.eq_false_iff.mpr vacant))
  | seedAdmin email hashed =>
    unfold UserRun.begin
    dsimp only
    split
    · exact .moves (.skips phase request ‹_›)
    · rename_i vacant
      have inserted : (requests i).newUser s.nextUserId = some
          { id := s.nextUserId
            email := Platform.lower email
            passwordHash := hashed
            role := .admin } := by
        rw [request]
        rfl
      exact .moves (.vacant phase inserted (Bool.eq_false_iff.mpr vacant))
  | administer token now userId change =>
    unfold UserRun.begin
    dsimp only
    split
    · exact .fails (.refused phase request ‹_›) (le_refl _)
    · exact .moves (.authorizes phase request ‹_›)

theorem insert_effect (phase : s.phase i = .insert) (moved : s.insert i (requests i) = some t) :
    UserEffect settings requests s i t := by
  unfold UserRun.insert at moved
  split at moved
  · cases moved
  rename_i row created
  split at moved
  · cases moved
  rename_i free
  split at moved
  · rename_i taken
    cases moved
    exact .fails (.duplicate created taken) (Nat.le_succ _)
  · rename_i unused
    obtain ⟨u, wrote, rfl⟩ := Option.map_eq_some_iff.mp moved
    obtain ⟨rows, stored, rfl⟩ := write_some wrote
    exact .inserts phase created (Bool.eq_false_iff.mpr free) (Bool.eq_false_iff.mpr unused) stored

theorem selectTarget_effect {currentUser : User} (phase : s.phase i = .selectTarget currentUser)
    (moved : s.selectTarget i currentUser (requests i) = some t) :
    UserEffect settings requests s i t := by
  cases request : requests i with
  | register | seedAdmin =>
    rw [request] at moved
    cases moved
  | administer token now userId change =>
    rw [request] at moved
    unfold UserRun.selectTarget at moved
    dsimp only at moved
    split at moved
    · cases moved
      exact .fails (.missing phase request ‹_›) (le_refl _)
    · cases moved
      exact .moves (.loads phase request ‹_›)

theorem flush_effect {loaded : User} (phase : s.phase i = .flush loaded)
    (moved : s.flush i loaded (requests i) = some t) : UserEffect settings requests s i t := by
  cases request : requests i with
  | register | seedAdmin =>
    rw [request] at moved
    cases moved
  | administer token now userId change =>
    rw [request] at moved
    unfold UserRun.flush at moved
    dsimp only at moved
    split at moved
    · rename_i same
      cases moved
      exact .moves (.unchanged phase request same)
    · rename_i changes
      split at moved
      · cases moved
        exact .fails (.goneAtUpdate phase request ‹_›) (le_refl _)
      · rename_i row here
        rw [flushUser_edit changes] at moved
        obtain ⟨rows, wrote, rfl⟩ := write_some moved
        exact .updates phase request changes here wrote

/-- Only the phase of the request that takes the step changes. -/
theorem effect_phase (effect : UserEffect settings requests s i t) {j : ι} (other : j ≠ i) :
    t.phase j = s.phase j := by
  cases effect with
  | moves | fails | inserts | updates | commits => exact Function.update_of_ne other _ _

theorem effect_update (effect : UserEffect settings requests s i t) :
    ∃ phase, t.phase = Function.update s.phase i phase := by
  cases effect with
  | moves | fails | inserts | updates | commits => exact ⟨_, rfl⟩

/-- The committed rows change at a commit only. -/
theorem effect_committed (effect : UserEffect settings requests s i t) :
    t.rows.committed = s.rows.committed ∨ ∃ answer, s.phase i = .commit answer ∧
      t = { s.goto i (.finished (.ok (some answer))) with rows := s.rows.commit i } := by
  cases effect with
  | moves | fails => exact .inl rfl
  | inserts _ _ _ _ wrote | updates _ _ _ _ wrote => exact .inl (write_committed wrote)
  | commits standing => exact .inr ⟨_, standing, rfl⟩

theorem step_unfinished (moved : s.step settings requests i = some t) :
    (s.phase i).ended = false := by
  cases phase : s.phase i with
  | finished =>
    unfold UserRun.step at moved
    rw [phase] at moved
    cases moved
  | _ => rfl

theorem user_effect (moved : s.step settings requests i = some t) :
    UserEffect settings requests s i t := by
  unfold UserRun.step at moved
  cases phase : s.phase i with
  | start =>
    simp only [phase, Option.some.injEq] at moved
    exact moved ▸ begin_effect phase
  | insert => exact insert_effect phase (by simpa only [phase] using moved)
  | selectTarget => exact selectTarget_effect phase (by simpa only [phase] using moved)
  | flush => exact flush_effect phase (by simpa only [phase] using moved)
  | refresh userId =>
    simp only [phase] at moved
    split at moved
    · cases moved
      exact .fails (.goneAtRefresh phase ‹_›) (le_refl _)
    · cases moved
      exact .moves (.reads phase ‹_›)
  | commit =>
    simp only [phase, Option.some.injEq] at moved
    exact moved ▸ .commits phase
  | finished => simp [phase] at moved

end Effects

end LogLens
