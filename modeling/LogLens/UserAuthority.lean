import LogLens.Registration

/-! Who may administer. Every admin goes back to one that was there at the start or was seeded,
by a chain of grants each of which passed `require_admin_user`; and once no account is an active
admin, none is ever again. -/

namespace LogLens
open LabelledMachine RowVersions

section Provenance
variable [Platform] {τ ι : Type} [TokenLibrary τ] [DecidableEq ι] (settings : Settings)
  (requests : ι → UserRequest τ) (s₀ : UserRun ι)

/-- Why a user is an admin after the steps of a run. -/
inductive Appointed : List (UserOp ι) → Nat → Prop
  | initially {ops : List (UserOp ι)} {k : Nat} {row : User} : s₀.rows.committed k = some row →
    row.role = .admin → Appointed ops k
  | seeded {ops : List (UserOp ι)} {s : UserRun ι} {i : ι} {email hashed : Str} {user : User} :
    requests i = .seedAdmin email hashed → (userMachine settings requests).run s₀ ops = some s →
    s.phase i = .finished (.ok (some user)) → Appointed ops user.id
  /-- the token was one of an active admin when it was checked, and the PATCH succeeded -/
  | granted {before after : List (UserOp ι)} {s t : UserRun ι} {i : ι} {token : τ}
    {now : Timestamp} {k : Nat} {granter answer : User} :
    requests i = .administer token now k (.updateRole .admin) →
    (userMachine settings requests).run s₀ before = some s → s.phase i = .start →
    s.authorize settings token now = .ok granter → Appointed before granter.id →
    (userMachine settings requests).run s₀ (before ++ .step i :: after) = some t →
    t.phase i = .finished (.ok (some answer)) → Appointed (before ++ .step i :: after) k

variable {settings requests s₀} {s t : UserRun ι} {ops : List (UserOp ι)} {op : UserOp ι} {i : ι}

omit [Platform] [DecidableEq ι] in
theorem authorize_ok {token : τ} {now : Timestamp} {user : User}
    (authorized : s.authorize settings token now = .ok user) :
    ∃ userId, (decodeAccessToken settings now token).bind idOfStr = some userId ∧
      s.rows.committed userId = some user ∧ user.isActive = true ∧ user.role = .admin := by
  unfold UserRun.authorize at authorized
  cases current : getCurrentUser settings now token s.rows.committed with
  | error e =>
    rw [current] at authorized
    cases authorized
  | ok currentUser =>
    rw [current] at authorized
    obtain ⟨rfl, admin⟩ := requireAdminUser_ok.mp authorized
    obtain ⟨userId, decoded, here, active⟩ := getCurrentUser_ok.mp current
    exact ⟨userId, decoded, here, active, admin⟩

/-- An answer stands. -/
theorem finished_stays (moved : (userMachine settings requests).step s op = some t)
    {answer : Except Raised (Option User)} (ended : s.phase i = .finished answer) :
    t.phase i = .finished answer := by
  cases op with
  | abort j text =>
    simp only [userMachine] at moved
    split at moved <;> cases moved
    rename_i unfinished
    have other : i ≠ j := by
      rintro rfl
      rw [ended] at unfinished
      exact unfinished rfl
    exact (Function.update_of_ne other _ _).trans ended
  | step j =>
    have other : i ≠ j := by
      rintro rfl
      have unfinished := step_unfinished moved
      rw [ended] at unfinished
      cases unfinished
    exact (effect_phase (user_effect moved) other).trans ended

theorem run_snoc (ran : (userMachine settings requests).run s₀ ops = some s)
    (moved : (userMachine settings requests).step s op = some t) :
    (userMachine settings requests).run s₀ (ops ++ [op]) = some t := by
  rw [run_append, ran, Option.bind_some, run_cons, moved]
  rfl

theorem Appointed.snoc {k : Nat} (appointed : Appointed settings requests s₀ ops k)
    (ran : (userMachine settings requests).run s₀ ops = some s)
    (moved : (userMachine settings requests).step s op = some t) :
    Appointed settings requests s₀ (ops ++ [op]) k := by
  cases appointed with
  | initially here admin => exact .initially here admin
  | seeded request ran' ended =>
    rw [ran, Option.some.injEq] at ran'
    subst ran'
    exact .seeded request (run_snoc ran moved) (finished_stays moved ended)
  | granted request ranBefore start authorized chain ran' ended =>
    rw [ran, Option.some.injEq] at ran'
    subst ran'
    have later := run_snoc ran moved
    rw [List.append_assoc, List.cons_append] at later ⊢
    exact .granted request ranBefore start authorized chain later (finished_stays moved ended)

/-- A PATCH past its check, with the run up to the check. -/
def Authorized (settings : Settings) (requests : ι → UserRequest τ) (s₀ : UserRun ι)
    (ops : List (UserOp ι)) (i : ι) (token : τ) (now : Timestamp) : Prop :=
  ∃ before after s granter, ops = before ++ .step i :: after ∧
    (userMachine settings requests).run s₀ before = some s ∧ s.phase i = .start ∧
    s.authorize settings token now = .ok granter ∧ Appointed settings requests s₀ before granter.id

theorem Authorized.snoc {token : τ} {now : Timestamp}
    (authorized : Authorized settings requests s₀ ops i token now) (op : UserOp ι) :
    Authorized settings requests s₀ (ops ++ [op]) i token now := by
  obtain ⟨before, after, s, granter, split, rest⟩ := authorized
  exact ⟨before, after ++ [op], s, granter, by rw [split, List.append_assoc, List.cons_append],
    rest⟩

/-- The admins are appointed, and the PATCH requests under way are authorized. -/
structure AuthorityHolds (settings : Settings) (requests : ι → UserRequest τ) (s₀ : UserRun ι)
    (ops : List (UserOp ι)) (s : UserRun ι) : Prop where
  users : UserInvariant requests s
  admins : ∀ k row, s.rows.committed k = some row → row.role = .admin →
    Appointed settings requests s₀ ops k
  underWay : ∀ i token now k change, requests i = .administer token now k change →
    s.phase i ≠ .start → (s.phase i).ended = false →
    Authorized settings requests s₀ ops i token now

theorem AuthorityHolds.commits (holds : AuthorityHolds settings requests s₀ ops s)
    (ran : (userMachine settings requests).run s₀ ops = some s)
    (moved : (userMachine settings requests).step s (.step i) = some t) {answer : User}
    (standing : s.phase i = .commit answer)
    (committed : t = { s.goto i (.finished (.ok (some answer))) with rows := s.rows.commit i }) :
    ∀ k row, t.rows.committed k = some row → row.role = .admin →
      Appointed settings requests s₀ (ops ++ [.step i]) k := by
  have ended : t.phase i = .finished (.ok (some answer)) := by
    rw [committed]
    exact Function.update_self _ _ _
  have ran' := run_snoc ran moved
  intro k row here admin
  by_cases own : ∃ row, s.rows.uncommitted k = some (i, row)
  · obtain ⟨written, version⟩ := own
    rw [committed] at here
    change (s.rows.commit i).committed k = some row at here
    rw [commit_own version, Option.some.injEq] at here
    subst here
    obtain ⟨pending, phase⟩ := holds.users.pending k i written version
    rw [standing] at phase
    obtain ⟨⟨⟩⟩ | ⟨_, ⟨⟩, keyed⟩ := phase
    cases pending with
    | inserted inserted =>
      -- a registered account is a developer's
      cases request : requests i with
      | register =>
        rw [request] at inserted
        cases inserted
        cases admin
      | administer =>
        rw [request] at inserted
        cases inserted
      | seedAdmin email hashed => exact keyed ▸ .seeded request ran' ended
    | @edited token now change base request before same =>
      by_cases already : base.role = .admin
      · exact (holds.admins k base before already).snoc ran moved
      · have grants : change = .updateRole .admin := by
          cases change with
          | updateStatus isActive =>
            rw [same] at admin
            exact absurd admin already
          | updateRole role =>
            rw [same] at admin
            exact congrArg UserEdit.updateRole admin
        subst grants
        obtain ⟨front, back, u, granter, split, ranFront, start, authorized, chain⟩ :=
          holds.underWay i token now k _ request (by rw [standing]; rintro ⟨⟩)
            (by rw [standing]; rfl)
        rw [split, List.append_assoc, List.cons_append] at ran' ⊢
        exact .granted request ranFront start authorized chain ran' ended
  · rw [committed] at here
    have same : (s.rows.commit i).committed k = s.rows.committed k :=
      commit_other fun row version => own ⟨row, version⟩
    exact (holds.admins k row (same ▸ here) admin).snoc ran moved

theorem AuthorityHolds.next (holds : AuthorityHolds settings requests s₀ ops s)
    (ran : (userMachine settings requests).run s₀ ops = some s)
    (moved : (userMachine settings requests).step s op = some t) :
    AuthorityHolds settings requests s₀ (ops ++ [op]) t where
  users := holds.users.next moved
  admins := by
    have kept : t.rows.committed = s.rows.committed → ∀ k row, t.rows.committed k = some row →
        row.role = .admin → Appointed settings requests s₀ (ops ++ [op]) k := by
      intro same k row here admin
      exact (holds.admins k row (same ▸ here) admin).snoc ran moved
    cases op with
    | abort i text =>
      refine kept ?_
      simp only [userMachine] at moved
      split at moved <;> cases moved
      rfl
    | step i =>
      obtain same | ⟨answer, standing, committed⟩ := effect_committed (user_effect moved)
      · exact kept same
      · exact holds.commits ran moved standing committed
  underWay := by
    intro j token now k change request phase unfinished
    have old : s.phase j ≠ .start → (s.phase j).ended = false →
        Authorized settings requests s₀ (ops ++ [op]) j token now := fun notStart notEnded =>
      (holds.underWay j token now k change request notStart notEnded).snoc op
    cases op with
    | abort i text =>
      simp only [userMachine] at moved
      split at moved <;> cases moved
      by_cases own : j = i
      · subst own
        simp only [UserRun.fail, UserRun.goto, Function.update_self] at unfinished
        cases unfinished
      · simp only [UserRun.fail, UserRun.goto, Function.update_of_ne own] at phase unfinished
        exact old phase unfinished
    | step i =>
      have effect := user_effect moved
      by_cases own : j = i
      · subst own
        by_cases start : s.phase j = .start
        · -- the step that takes the check
          cases effect with
          | moves move =>
            cases move with
            | vacant _ inserted =>
              rw [request] at inserted
              cases inserted
            | skips _ seeds =>
              rw [request] at seeds
              cases seeds
            | authorizes _ request' authorized =>
              rw [request] at request'
              cases request'
              obtain ⟨userId, -, here, -, admin⟩ := authorize_ok authorized
              have keyed := holds.users.keyed userId _ (.inl here)
              exact ⟨ops, [], s, _, rfl, ran, start, authorized,
                keyed.symm ▸ holds.admins userId _ here admin⟩
            | loads standing | unchanged standing | reads standing =>
              rw [start] at standing
              cases standing
          | fails =>
            simp only [UserRun.fail, UserRun.goto, Function.update_self] at unfinished
            cases unfinished
          | inserts standing | updates standing | commits standing =>
            rw [start] at standing
            cases standing
        · exact old start (step_unfinished moved)
      · rw [effect_phase effect own] at phase unfinished
        exact old phase unfinished

/-- No privilege comes from nowhere: after every run, each admin was one at the start, or was
seeded, or was made one by a PATCH that an admin so appointed was authorized for. -/
theorem admins_appointed (settings : Settings) (requests : ι → UserRequest τ) (s₀ s : UserRun ι)
    (initial : s₀.Initial) (ops : List (UserOp ι))
    (ran : (userMachine settings requests).run s₀ ops = some s) (k : Nat) (row : User)
    (here : s.rows.committed k = some row) (admin : row.role = .admin) :
    Appointed settings requests s₀ ops k := by
  refine (run_induction (P := fun ops s => AuthorityHolds settings requests s₀ ops s)
    ⟨userInvariant_initial initial, fun k row here admin => .initially here admin, ?_⟩
    (fun before op t u ran holds moved => holds.next ran moved) ran).admins k row here admin
  intro i token now k change _ phase
  rw [initial.2.2] at phase
  exact absurd rfl phase

end Provenance

section Loss
variable [Platform] {τ ι : Type}

/-- The accounts that `require_admin_user` lets through. -/
def UserRun.activeAdmins (s : UserRun ι) : List Nat :=
  s.rows.matching fun user => user.role = .admin && user.isActive

/-- No active admin, no PATCH past its check, and each seed finds its email taken. -/
structure Powerless (requests : ι → UserRequest τ) (s : UserRun ι) : Prop where
  admins : s.activeAdmins = []
  patches : ∀ i k, Administers requests i k → s.phase i = .start ∨ (s.phase i).ended = true
  seeds : ∀ i email hashed, requests i = .seedAdmin email hashed →
    (s.phase i).ended = true ∨
      (s.phase i = .start ∧ s.emailTaken (Platform.lower email) = true)

variable {requests : ι → UserRequest τ} {s t : UserRun ι} {i : ι}

omit [Platform] in
theorem activeAdmins_nil : s.activeAdmins = [] ↔ ∀ k row, s.rows.committed k = some row →
    row.role = .admin → row.isActive = false := by
  rw [List.eq_nil_iff_forall_not_mem]
  refine forall_congr' fun k => ?_
  unfold UserRun.activeAdmins
  rw [mem_matching]
  constructor
  · intro missing row here admin
    refine Bool.eq_false_iff.mpr fun active => missing ⟨row, here, ?_⟩
    simp [admin, active]
  · rintro none ⟨row, here, both⟩
    rw [Bool.and_eq_true, decide_eq_true_eq] at both
    exact absurd both.2 (Bool.eq_false_iff.mp (none row here both.1))

omit [Platform] in
theorem emailTaken_keeps (keeps : s.Keeps t) {email : Str} (taken : s.emailTaken email = true) :
    t.emailTaken email = true := by
  obtain ⟨k, row, here, same⟩ := emailTaken_iff.mp taken
  obtain ⟨row', here', email', -⟩ := keeps k row here
  exact emailTaken_iff.mpr ⟨k, row', here', email'.trans same⟩

/-- Without power a request between its start and its end is a registration. -/
theorem Powerless.registers (powerless : Powerless requests s) (notStart : s.phase i ≠ .start)
    (unfinished : (s.phase i).ended = false) :
    ∃ payload hashed, requests i = .register payload hashed := by
  cases request : requests i with
  | register payload hashed => exact ⟨payload, hashed, rfl⟩
  | seedAdmin email hashed =>
    obtain ended | ⟨start, -⟩ := powerless.seeds i email hashed request
    · rw [unfinished] at ended
      cases ended
    · exact absurd start notStart
  | administer token now userId change =>
    obtain start | ended := powerless.patches i userId ⟨token, now, change, request⟩
    · exact absurd start notStart
    · rw [unfinished] at ended
      cases ended

variable [TokenLibrary τ] [DecidableEq ι] {settings : Settings}

omit [TokenLibrary τ] in
/-- A step of `i` to a phase, which leaves the committed admins as they are. -/
theorem Powerless.step (powerless : Powerless requests s) (admins : t.activeAdmins = [])
    (keeps : s.Keeps t) {phase : UserPhase} (moved : t.phase = Function.update s.phase i phase)
    (here : phase.ended = true ∨ ∃ payload hashed, requests i = .register payload hashed) :
    Powerless requests t := by
  refine ⟨admins, fun j k administers => ?_, fun j email hashed request => ?_⟩
  · rw [moved]
    by_cases own : j = i
    · subst own
      rw [Function.update_self]
      obtain ended | ⟨payload, hashed, register⟩ := here
      · exact .inr ended
      · obtain ⟨token, now, change, request⟩ := administers
        rw [register] at request
        cases request
    · rw [Function.update_of_ne own]
      exact powerless.patches j k administers
  · rw [moved]
    by_cases own : j = i
    · subst own
      rw [Function.update_self]
      obtain ended | ⟨payload, hashed', register⟩ := here
      · exact .inl ended
      · rw [register] at request
        cases request
    · rw [Function.update_of_ne own]
      exact (powerless.seeds j email hashed request).imp_right (And.imp_right (emailTaken_keeps keeps))

/-- Without power a request stays at its start, registers an account, or ends. -/
theorem Powerless.moves (powerless : Powerless requests s) {phase : UserPhase}
    (move : UserMove settings requests s i phase) :
    phase.ended = true ∨ ∃ payload hashed, requests i = .register payload hashed := by
  have stuck : ∀ {p : UserPhase}, s.phase i = p → p ≠ .start → p.ended = false →
      ∃ payload hashed, requests i = .register payload hashed := by
    intro p standing notStart unfinished
    exact powerless.registers (standing ▸ notStart) (standing ▸ unfinished)
  cases move with
  | vacant start inserted unused =>
    right
    cases request : requests i with
    | register payload hashed => exact ⟨payload, hashed, rfl⟩
    | seedAdmin email hashed =>
      obtain ended | ⟨-, taken⟩ := powerless.seeds i email hashed request
      · rw [start] at ended
        cases ended
      · rw [request] at inserted
        cases inserted
        rw [unused] at taken
        cases taken
    | administer =>
      rw [request] at inserted
      cases inserted
  | skips => exact .inl rfl
  | authorizes start request authorized =>
    obtain ⟨userId, -, here, active, admin⟩ := authorize_ok authorized
    have inactive := activeAdmins_nil.mp powerless.admins userId _ here admin
    rw [active] at inactive
    cases inactive
  | loads standing | unchanged standing | reads standing =>
    exact .inr (stuck standing (by rintro ⟨⟩) rfl)

theorem Powerless.next (powerless : Powerless requests s) (holds : UserInvariant requests s)
    {op : UserOp ι} (moved : (userMachine settings requests).step s op = some t) :
    Powerless requests t := by
  have same : ∀ {u : UserRun ι}, u.rows.committed = s.rows.committed →
      u.activeAdmins = [] ∧ s.Keeps u := by
    intro u committed
    refine ⟨activeAdmins_nil.mpr fun k row here => ?_, fun k row here => ?_⟩
    · exact activeAdmins_nil.mp powerless.admins k row (committed ▸ here)
    · exact ⟨row, committed.symm ▸ here, rfl, rfl⟩
  cases op with
  | abort i text =>
    simp only [userMachine] at moved
    split at moved <;> cases moved
    have rows : (s.fail i (.other text)).activeAdmins = [] ∧ s.Keeps (s.fail i (.other text)) :=
      same rfl
    exact powerless.step rows.1 rows.2 rfl (.inl rfl)
  | step i =>
    have unfinished := step_unfinished moved
    have effect := user_effect moved
    obtain committed | ⟨answer, standing, rfl⟩ := effect_committed effect
    · obtain ⟨admins, keeps⟩ := same committed
      cases effect with
      | moves move => exact powerless.step admins keeps rfl (powerless.moves move)
      | fails => exact powerless.step admins keeps rfl (.inl rfl)
      | inserts standing | updates standing =>
        refine powerless.step admins keeps rfl (.inr (powerless.registers ?_ unfinished))
        rw [standing]
        rintro ⟨⟩
      | commits => exact powerless.step admins keeps rfl (.inl rfl)
    · obtain ⟨payload, hashed, register⟩ :=
        powerless.registers (by rw [standing]; rintro ⟨⟩) unfinished
      have keeps : s.Keeps
          { s.goto i (.finished (.ok (some answer))) with rows := s.rows.commit i } :=
        holds.commit_keeps
      refine powerless.step (activeAdmins_nil.mpr fun k row here admin => ?_) keeps rfl (.inl rfl)
      by_cases own : ∃ row, s.rows.uncommitted k = some (i, row)
      · obtain ⟨written, version⟩ := own
        change (s.rows.commit i).committed k = some row at here
        rw [commit_own version, Option.some.injEq] at here
        subst here
        obtain ⟨inserted, -⟩ | ⟨administers, -⟩ := (holds.pending k i written version).1
        · rw [register] at inserted
          cases inserted
          cases admin
        · rw [register] at administers
          cases administers
      · refine activeAdmins_nil.mp powerless.admins k row ?_ admin
        rw [← here]
        exact (commit_other fun row version => own ⟨row, version⟩).symm

/-- A PATCH that ends with its first step is refused. -/
theorem refused_at_start {k : Nat} {op : UserOp ι} (administers : Administers requests i k)
    (start : s.phase i = .start) (moved : (userMachine settings requests).step s op = some t)
    (ended : (t.phase i).ended = true) : ∃ e, t.phase i = .finished (.error e) := by
  obtain ⟨token, now, change, request⟩ := administers
  cases op with
  | abort j text =>
    simp only [userMachine] at moved
    split at moved <;> cases moved
    by_cases own : i = j
    · subst own
      exact ⟨.other text, Function.update_self _ _ _⟩
    · simp only [UserRun.fail, UserRun.goto, Function.update_of_ne own, start] at ended
      cases ended
  | step j =>
    have effect := user_effect moved
    by_cases own : i = j
    · subst own
      cases effect with
      | moves move =>
        simp only [UserRun.goto, Function.update_self] at ended
        cases move with
        | skips _ seeds =>
          rw [request] at seeds
          cases seeds
        | _ => cases ended
      | fails => exact ⟨_, Function.update_self _ _ _⟩
      | inserts standing | updates standing | commits standing =>
        rw [start] at standing
        cases standing
    · rw [effect_phase effect own, start] at ended
      cases ended

/-- Authority that is lost is lost for good: from a state of a run without an active admin, with
no PATCH past its check and every seed's email taken, no step leads to one with an active admin,
and no PATCH succeeds. -/
theorem authority_lost (settings : Settings) (requests : ι → UserRequest τ) (s₀ s t : UserRun ι)
    (initial : s₀.Initial) (ops more : List (UserOp ι))
    (ran : (userMachine settings requests).run s₀ ops = some s)
    (powerless : Powerless requests s)
    (ran' : (userMachine settings requests).run s more = some t) :
    Powerless requests t ∧ ∀ i k, Administers requests i k → s.phase i = .start →
      t.phase i = .start ∨ ∃ e, t.phase i = .finished (.error e) := by
  have start : UserInvariant requests s :=
    run_invariant (fun _ _ _ holds moved => UserInvariant.next holds moved)
      (userInvariant_initial initial) ran
  refine (run_invariant (I := fun u => UserInvariant requests u ∧ Powerless requests u ∧
    ∀ i k, Administers requests i k → s.phase i = .start →
      u.phase i = .start ∨ ∃ e, u.phase i = .finished (.error e)) ?_
    ⟨start, powerless, fun _ _ _ waits => .inl waits⟩ ran').2
  rintro u v op ⟨holds, powerless, refused⟩ moved
  refine ⟨holds.next moved, powerless.next holds moved, fun i k administers waits => ?_⟩
  obtain begins | ⟨e, ended⟩ := refused i k administers waits
  · obtain start | ended := (powerless.next holds moved).patches i k administers
    · exact .inl start
    · exact .inr (refused_at_start administers begins moved ended)
  · exact .inr ⟨e, finished_stays moved ended⟩

end Loss

section Sample

/-- An admin and a developer. -/
def staff : AuthTables where
  users := [{ id := 1, email := ['a'], passwordHash := [], role := .admin },
    { id := 2, email := ['d'], passwordHash := [] }]
  nextUserId := 3

theorem staff_valid : staff.UsersValid := ⟨by decide, by decide⟩

def staffRun : UserRun Bool := .ofTables staff staff_valid

theorem staffRun_initial : staffRun.Initial := ofTables_initial staff_valid (by decide)

/-- An access token of the admin, good for a quarter of an hour. -/
def adminToken : Claims × Str :=
  (accessClaims (strOfId 1) (lifetime 15), List.replicate 32 'k')

/-- The admin makes the developer an admin. -/
def promotion (_ : Bool) : UserRequest (Claims × Str) :=
  .administer adminToken 0 2 (.updateRole .admin)

/-- The only admin turns its own account off, and tries to turn it on again. -/
def selfLockout (second : Bool) : UserRequest (Claims × Str) :=
  .administer adminToken 0 1 (.updateStatus second)

def staffMachine (requests : Bool → UserRequest (Claims × Str)) :
    Machine (UserRun Bool) (UserOp Bool) :=
  let _ := asciiPlatform
  let _ := openLibrary
  userMachine sharedSecret requests

def lonePatch : List (UserOp Bool) := List.replicate 5 (.step false)

theorem admins_appointed_promotion :
    let _ := asciiPlatform
    let _ := openLibrary
    staff.getById 2 = some { id := 2, email := ['d'], passwordHash := [] } ∧
      Appointed sharedSecret promotion staffRun lonePatch 2 := by
  intro _ _
  refine ⟨by decide, ?_⟩
  obtain ⟨s, ran⟩ : ∃ s, (staffMachine promotion).run staffRun lonePatch = some s :=
    Option.isSome_iff_exists.mp (by decide)
  have promoted : ((staffMachine promotion).run staffRun lonePatch).map
      (fun s => (s.rows.committed 2).map User.role) = some (some .admin) := by decide
  rw [ran, Option.map_some, Option.some.injEq, Option.map_eq_some_iff] at promoted
  obtain ⟨row, here, admin⟩ := promoted
  exact admins_appointed sharedSecret promotion staffRun s staffRun_initial lonePatch ran 2 row
    here admin

theorem authority_lost_selfLockout :
    ∃ s t, (staffMachine selfLockout).run staffRun lonePatch = some s ∧
      (staffMachine selfLockout).run s [.step true] = some t ∧ s.activeAdmins = [] ∧
      t.activeAdmins = [] ∧ (t.phase true = .start ∨ ∃ e, t.phase true = .finished (.error e)) := by
  let _ := asciiPlatform
  let _ := openLibrary
  obtain ⟨t, ran⟩ : ∃ t, (staffMachine selfLockout).run staffRun (lonePatch ++ [.step true]) =
      some t := Option.isSome_iff_exists.mp (by decide)
  rw [run_append, Option.bind_eq_some_iff] at ran
  obtain ⟨s, ranPatch, ran⟩ := ran
  have standing : ((staffMachine selfLockout).run staffRun lonePatch).map
      (fun s => (s.activeAdmins, (s.phase false).ended, s.phase true)) =
        some ([], true, .start) := by decide
  rw [ranPatch, Option.map_some, Option.some.injEq, Prod.mk.injEq, Prod.mk.injEq] at standing
  obtain ⟨none, ended, waits⟩ := standing
  have powerless : Powerless selfLockout s := by
    refine ⟨none, ?_, by rintro i email hashed ⟨⟩⟩
    rintro (_ | _) k -
    · exact .inr ended
    · exact .inl waits
  have lost := authority_lost sharedSecret selfLockout staffRun s t staffRun_initial lonePatch
    [.step true] ranPatch powerless ran
  exact ⟨s, t, ranPatch, ran, none, lost.1.admins, lost.2 true 1 ⟨_, _, _, rfl⟩ waits⟩

end Sample

end LogLens
