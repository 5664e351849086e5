import LogLens.Library.SerialOrder
import LogLens.UserAuthority

/-! Concurrent PATCH requests on one account lose no update: what those that succeed leave of the
row is what they leave when they run one at a time in some order. A request that writes has its
place at its commit. One that found its value in place has it where it loaded the row. -/

namespace LogLens
open LabelledMachine RowVersions SerialOrder

section Orders
variable [Platform] {τ ι : Type} (requests : ι → UserRequest τ)

def EditEffect (k : Nat) (i : ι) (r r' : User) : Prop :=
  ∃ token now change, requests i = .administer token now k change ∧ r' = change.edit r

def UserRun.Succeeded (s : UserRun ι) (i : ι) : Prop :=
  ∃ answer, s.phase i = .finished (.ok (some answer))

/-- The request has its place in the order. -/
def Settled (s : UserRun ι) (i : ι) (k : Nat) (change : UserEdit) : UserPhase → Prop
  | .selectTarget currentUser => currentUser.id = k ∧ change.edit currentUser = currentUser
  | .flush loaded => change.edit loaded = loaded
  | .refresh _ | .commit _ => ∀ row, s.rows.uncommitted k ≠ some (i, row)
  | .finished (.ok (some _)) => True
  | _ => False

/-- The effect of a request that may still fail is none. -/
def EffectBy (s : UserRun ι) (k : Nat) (i : ι) (r r' : User) : Prop :=
  EditEffect requests k i r r' ∧ (s.Succeeded i ∨ r' = r)

structure EditOrder (s : UserRun ι) (k : Nat) (base : User) (order : List ι) (row : User) :
    Prop where
  nodup : order.Nodup
  serial : Serial (EffectBy requests s k) base order row
  settled : ∀ i token now change, requests i = .administer token now k change →
    Settled s i k change (s.phase i) → i ∈ order
  members : ∀ i ∈ order, ∃ token now change, requests i = .administer token now k change ∧
    (Settled s i k change (s.phase i) ∨ ∃ e, s.phase i = .finished (.error e))

/-- What an account was when it was there first. -/
def AccountBase (s₀ s : UserRun ι) (k : Nat) (base : User) : Prop :=
  s₀.rows.committed k = some base ∨
    ∃ j, (requests j).newUser k = some base ∧ s.phase j = .finished (.ok (some base))

/-- Past the load of its target, a PATCH has one. -/
def TargetThere (s : UserRun ι) (k : Nat) : UserPhase → Prop
  | .selectTarget currentUser => ∃ row, s.rows.committed currentUser.id = some row
  | .flush _ | .refresh _ | .commit _ | .finished (.ok (some _)) =>
    ∃ row, s.rows.committed k = some row
  | _ => True

structure EditsHold (s₀ s : UserRun ι) : Prop where
  users : UserInvariant requests s
  targets : ∀ i token now k change, requests i = .administer token now k change →
    TargetThere s k (s.phase i)
  orders : ∀ k row, s.rows.committed k = some row → ∃ base order,
    AccountBase requests s₀ s k base ∧ EditOrder requests s k base order row

variable {requests} {s₀ s t : UserRun ι} {i j : ι} {k : Nat} {base row : User} {order : List ι}

omit [Platform] in
theorem TargetThere.keeps (keeps : s.Keeps t) {phase : UserPhase} (there : TargetThere s k phase) :
    TargetThere t k phase := by
  have stays : ∀ {k : Nat}, (∃ row, s.rows.committed k = some row) →
      ∃ row, t.rows.committed k = some row := by
    rintro k ⟨row, here⟩
    obtain ⟨row', here', -⟩ := keeps k row here
    exact ⟨row', here'⟩
  match phase, there with
  | .selectTarget _, there | .flush _, there | .refresh _, there | .commit _, there
  | .finished (.ok (some _)), there => exact stays there
  | .start, _ | .insert, _ | .finished (.ok none), _ | .finished (.error _), _ => trivial

omit [Platform] in
/-- A request that has its place has found its account. -/
theorem Settled.there {change : UserEdit} {phase : UserPhase} (settled : Settled s i k change phase)
    (there : TargetThere s k phase) : ∃ row, s.rows.committed k = some row := by
  match phase, settled, there with
  | .selectTarget _, settled, there => exact settled.1 ▸ there
  | .flush _, _, there | .refresh _, _, there | .commit _, _, there
  | .finished (.ok (some _)), _, there => exact there

variable [DecidableEq ι]

/-- A step of `i` to a phase, which leaves the uncommitted rows of the others as they are. -/
structure Steps (s t : UserRun ι) (i : ι) (phase : UserPhase) : Prop where
  moved : t.phase = Function.update s.phase i phase
  unfinished : (s.phase i).ended = false
  others : ∀ j ≠ i, ∀ k row,
    t.rows.uncommitted k = some (j, row) ↔ s.rows.uncommitted k = some (j, row)

omit [Platform] in
theorem Steps.own {phase : UserPhase} (steps : Steps s t i phase) : t.phase i = phase := by
  rw [steps.moved, Function.update_self]

omit [Platform] in
theorem Steps.other {phase : UserPhase} (steps : Steps s t i phase) (other : j ≠ i) :
    t.phase j = s.phase j := by
  rw [steps.moved, Function.update_of_ne other]

omit [Platform] in
theorem Steps.settled {phase : UserPhase} (steps : Steps s t i phase) (other : j ≠ i)
    {change : UserEdit} :
    Settled t j k change (t.phase j) ↔ Settled s j k change (s.phase j) := by
  rw [steps.other other]
  match s.phase j with
  | .refresh _ | .commit _ =>
    exact forall_congr' fun row => not_congr (steps.others j other k row)
  | .start | .insert | .selectTarget _ | .flush _ | .finished (.ok none) | .finished (.error _)
  | .finished (.ok (some _)) => exact Iff.rfl

omit [Platform] in
theorem Steps.succeeded {phase : UserPhase} (steps : Steps s t i phase) (done : s.Succeeded j) :
    t.Succeeded j := by
  obtain ⟨answer, ended⟩ := done
  refine ⟨answer, (steps.other ?_).trans ended⟩
  rintro rfl
  have unfinished := steps.unfinished
  rw [ended] at unfinished
  cases unfinished

omit [Platform] in
theorem EditOrder.effects (holds : EditOrder requests s k base order row) {phase : UserPhase}
    (steps : Steps s t i phase) : Serial (EffectBy requests t k) base order row :=
  holds.serial.mono fun _ _ _ _ effect => ⟨effect.1, effect.2.imp_left steps.succeeded⟩

omit [Platform] [DecidableEq ι] in
/-- An unfinished request in the order is settled. -/
theorem EditOrder.placed (holds : EditOrder requests s k base order row)
    (unfinished : (s.phase i).ended = false) {token : τ} {now : Timestamp} {change : UserEdit}
    (request : requests i = .administer token now k change) (mem : i ∈ order) :
    Settled s i k change (s.phase i) := by
  obtain ⟨token', now', change', request', settled | ⟨e, ended⟩⟩ := holds.members i mem
  · rw [request] at request'
    cases request'
    exact settled
  · rw [ended] at unfinished
    cases unfinished

omit [Platform] in
/-- The request keeps its place, or stays without one. -/
theorem EditOrder.keep (holds : EditOrder requests s k base order row) {phase : UserPhase}
    (steps : Steps s t i phase)
    (settles : ∀ token now change, requests i = .administer token now k change →
      Settled t i k change phase → Settled s i k change (s.phase i))
    (stays : ∀ token now change, requests i = .administer token now k change →
      Settled s i k change (s.phase i) →
      Settled t i k change phase ∨ ∃ e, phase = .finished (.error e)) :
    EditOrder requests t k base order row where
  nodup := holds.nodup
  serial := holds.effects steps
  settled j token now change request settled := by
    by_cases own : j = i
    · subst own
      rw [steps.own] at settled
      exact holds.settled j token now change request (settles token now change request settled)
    · exact holds.settled j token now change request ((steps.settled own).mp settled)
  members j mem := by
    by_cases own : j = i
    · subst own
      obtain ⟨token, now, change, request, -⟩ := holds.members j mem
      have here := stays token now change request (holds.placed steps.unfinished request mem)
      rw [steps.own]
      exact ⟨token, now, change, request, here⟩
    · obtain ⟨token, now, change, request, here⟩ := holds.members j mem
      refine ⟨token, now, change, request, ?_⟩
      rwa [steps.settled own, steps.other own]

omit [Platform] in
/-- The request takes the last place. -/
theorem EditOrder.join (holds : EditOrder requests s k base order row) {phase : UserPhase}
    (steps : Steps s t i phase) {token : τ} {now : Timestamp} {change : UserEdit}
    (request : requests i = .administer token now k change)
    (unsettled : ¬ Settled s i k change (s.phase i)) (settled : Settled t i k change phase)
    (effect : t.Succeeded i ∨ change.edit row = row) :
    EditOrder requests t k base (order ++ [i]) (change.edit row) where
  nodup := by
    rw [← List.concat_eq_append, List.nodup_concat]
    exact ⟨fun mem => unsettled (holds.placed steps.unfinished request mem), holds.nodup⟩
  serial := .snoc (holds.effects steps) ⟨⟨token, now, change, request, rfl⟩, effect⟩
  settled j token' now' change' request' settled' := by
    by_cases own : j = i
    · subst own
      exact List.mem_append_right _ (List.mem_singleton_self _)
    · exact List.mem_append_left _ (holds.settled j token' now' change' request'
        ((steps.settled own).mp settled'))
  members j mem := by
    by_cases own : j = i
    · subst own
      rw [steps.own]
      exact ⟨token, now, change, request, .inl settled⟩
    · obtain mem | last := List.mem_append.mp mem
      · obtain ⟨token', now', change', request', here⟩ := holds.members j mem
        refine ⟨token', now', change', request', ?_⟩
        rwa [steps.settled own, steps.other own]
      · exact absurd (List.mem_singleton.mp last) own

theorem AccountBase.steps (holds : AccountBase requests s₀ s k base) {phase : UserPhase}
    (steps : Steps s t i phase) : AccountBase requests s₀ t k base := by
  refine holds.imp_right fun ⟨j, inserted, ended⟩ => ⟨j, inserted, (steps.other ?_).trans ended⟩
  rintro rfl
  have unfinished := steps.unfinished
  rw [ended] at unfinished
  cases unfinished

/-- A step that commits nothing keeps the orders, with the request in its place. -/
theorem EditsHold.statement (holds : EditsHold requests s₀ s) (users : UserInvariant requests t)
    {phase : UserPhase} (steps : Steps s t i phase) (same : t.rows.committed = s.rows.committed)
    (there : ∀ token now k change, requests i = .administer token now k change →
      TargetThere t k phase)
    (places : ∀ token now k change base order row, requests i = .administer token now k change →
      s.rows.committed k = some row → EditOrder requests s k base order row →
      ∃ order, EditOrder requests t k base order row) : EditsHold requests s₀ t where
  users := users
  targets j token now k change request := by
    by_cases own : j = i
    · subst own
      rw [steps.own]
      exact there token now k change request
    · rw [steps.other own]
      refine (holds.targets j token now k change request).keeps fun k row here => ?_
      exact ⟨row, same.symm ▸ here, rfl, rfl⟩
  orders k row here := by
    rw [same] at here
    obtain ⟨base, order, based, ordered⟩ := holds.orders k row here
    by_cases mine : Administers requests i k
    · obtain ⟨token, now, change, request⟩ := mine
      obtain ⟨order', ordered'⟩ := places token now k change base order row request here ordered
      exact ⟨base, order', based.steps steps, ordered'⟩
    · refine ⟨base, order, based.steps steps, ordered.keep steps ?_ ?_⟩
      · exact fun token now change request => absurd ⟨token, now, change, request⟩ mine
      · exact fun token now change request => absurd ⟨token, now, change, request⟩ mine

theorem EditsHold.fails (holds : EditsHold requests s₀ s) {error : Raised} {next : Nat}
    (users : UserInvariant requests { s.fail i error with nextUserId := next })
    (unfinished : (s.phase i).ended = false) :
    EditsHold requests s₀ { s.fail i error with nextUserId := next } := by
  have steps : Steps s { s.fail i error with nextUserId := next } i (.finished (.error error)) :=
    ⟨rfl, unfinished, fun j other k row => rollback_uncommitted.trans (and_iff_left other)⟩
  refine holds.statement users steps rfl (fun _ _ _ _ _ => trivial) ?_
  intro token now k change base order row request here ordered
  exact ⟨order, ordered.keep steps (fun _ _ _ _ settled => settled.elim)
    fun _ _ _ _ _ => .inr ⟨error, rfl⟩⟩

variable [TokenLibrary τ] {settings : Settings}

theorem EditsHold.moves (holds : EditsHold requests s₀ s) {phase : UserPhase}
    (users : UserInvariant requests (s.goto i phase)) (unfinished : (s.phase i).ended = false)
    (move : UserMove settings requests s i phase) : EditsHold requests s₀ (s.goto i phase) := by
  have steps : Steps s (s.goto i phase) i phase := ⟨rfl, unfinished, fun _ _ _ _ => Iff.rfl⟩
  -- a request without a place takes one, if it found its value in place
  have placed : ∀ {token : τ} {now : Timestamp} {k : Nat} {change : UserEdit} {base row : User}
      {order : List ι}, requests i = .administer token now k change →
      EditOrder requests s k base order row → ¬ Settled s i k change (s.phase i) →
      (Settled (s.goto i phase) i k change phase → change.edit row = row) →
      ∃ order, EditOrder requests (s.goto i phase) k base order row := by
    intro token now k change base row order request ordered unsettled idle
    by_cases settled : Settled (s.goto i phase) i k change phase
    · have joined := ordered.join steps request unsettled settled (.inr (idle settled))
      rw [idle settled] at joined
      exact ⟨_, joined⟩
    · refine ⟨order, ordered.keep steps ?_ ?_⟩
      · intro token' now' change' request' settled'
        rw [request] at request'
        cases request'
        exact absurd settled' settled
      · intro token' now' change' request' settled'
        rw [request] at request'
        cases request'
        exact absurd settled' unsettled
  have kept : ∀ {token : τ} {now : Timestamp} {k : Nat} {change : UserEdit} {base row : User}
      {order : List ι}, requests i = .administer token now k change →
      EditOrder requests s k base order row →
      (Settled (s.goto i phase) i k change phase ↔ Settled s i k change (s.phase i)) →
      ∃ order, EditOrder requests (s.goto i phase) k base order row := by
    intro token now k change base row order request ordered same
    refine ⟨order, ordered.keep steps ?_ ?_⟩
    · intro token' now' change' request' settled'
      rw [request] at request'
      cases request'
      exact same.mp settled'
    · intro token' now' change' request' settled'
      rw [request] at request'
      cases request'
      exact .inl (same.mpr settled')
  have target := holds.targets i
  cases move with
  | vacant start inserted unused =>
    refine holds.statement users steps rfl (fun _ _ _ _ _ => trivial) ?_
    intro token now k change base order row request
    rw [request] at inserted
    cases inserted
  | skips start seeds taken =>
    refine holds.statement users steps rfl (fun _ _ _ _ _ => trivial) ?_
    intro token now k change base order row request
    rw [request] at seeds
    cases seeds
  | @authorizes token now userId change currentUser start request authorized =>
    obtain ⟨own, -, found, -, -⟩ := authorize_ok authorized
    have keyed := holds.users.keyed own currentUser (.inl found)
    subst keyed
    refine holds.statement users steps rfl (fun _ _ _ _ _ => ⟨currentUser, found⟩) ?_
    intro token' now' k change' base order row request' here ordered
    refine placed request' ordered (by rw [start]; exact id) fun settled => ?_
    rw [← settled.1, found, Option.some.injEq] at here
    rw [← here]
    exact settled.2
  | @loads token now userId change currentUser loaded standing request load =>
    have there := target token now userId change request
    rw [standing] at there
    unfold UserRun.target at load
    refine holds.statement users steps rfl ?_ ?_
    · intro token' now' k change' request'
      rw [request] at request'
      cases request'
      split at load
      · rename_i self
        rwa [self]
      · exact ⟨loaded, load⟩
    · intro token' now' k change' base order row request' here ordered
      rw [request] at request'
      cases request'
      split at load
      · rename_i self
        cases load
        refine kept request ordered ?_
        rw [standing]
        exact ⟨fun idle => ⟨self.symm, idle⟩, And.right⟩
      · rename_i other
        refine placed request ordered ?_ fun idle => ?_
        · rw [standing]
          exact fun settled => other settled.1.symm
        · rw [load, Option.some.injEq] at here
          rwa [← here]
  | @unchanged token now userId change loaded standing request idle =>
    have there := target token now userId change request
    rw [standing] at there
    have unwritten : ∀ row, s.rows.uncommitted userId ≠ some (i, row) := by
      intro row version
      obtain here | ⟨answer, here, -⟩ := holds.users.unwritten version <;>
        · rw [standing] at here
          cases here
    refine holds.statement users steps rfl ?_ ?_
    · intro token' now' k change' request'
      rw [request] at request'
      cases request'
      exact there
    · intro token' now' k change' base order row request' here ordered
      rw [request] at request'
      cases request'
      refine kept request ordered ?_
      rw [standing]
      exact iff_of_true unwritten idle
  | reads standing =>
    refine holds.statement users steps rfl ?_ ?_
    · intro token now k change request
      have there := target token now k change request
      rw [standing] at there
      exact there
    · intro token now k change base order row request here ordered
      refine kept request ordered ?_
      rw [standing]
      exact Iff.rfl

omit [TokenLibrary τ] in
/-- A write takes no place before its commit. -/
theorem EditsHold.writes (holds : EditsHold requests s₀ s) {rows : Rows Nat User ι} {k : Nat}
    {row : User} (wrote : s.rows.write i k row = some rows) (rowsHere : t.rows = rows)
    (phase : t.phase = Function.update s.phase i (.refresh k)) (users : UserInvariant requests t)
    (unfinished : (s.phase i).ended = false)
    (there : ∀ token now k' change, requests i = .administer token now k' change →
      k' = k ∧ (∃ row, s.rows.committed k = some row) ∧ ¬ Settled s i k change (s.phase i)) :
    EditsHold requests s₀ t := by
  subst rowsHere
  have same := write_committed wrote
  have steps : Steps s t i (.refresh k) :=
    ⟨phase, unfinished, fun j other k row => write_foreign wrote other⟩
  refine holds.statement users steps same ?_ ?_
  · intro token now k' change request
    obtain ⟨rfl, ⟨row, here⟩, -⟩ := there token now k' change request
    exact ⟨row, by rwa [same]⟩
  · intro token now k' change base order row' request here ordered
    obtain ⟨rfl, -, unsettled⟩ := there token now k' change request
    refine ⟨order, ordered.keep steps ?_ ?_⟩
    · intro token' now' change' request' settled
      refine absurd ?_ (settled row)
      rw [write_uncommitted wrote, Function.update_self]
    · intro token' now' change' request' settled
      exact absurd settled (there token' now' k' change' request').2.2

omit [TokenLibrary τ] in
theorem EditsHold.commits (holds : EditsHold requests s₀ s) {answer : User}
    (standing : s.phase i = .commit answer) :
    EditsHold requests s₀
      { s.goto i (.finished (.ok (some answer))) with rows := s.rows.commit i } := by
  have unfinished : (s.phase i).ended = false := by
    rw [standing]
    rfl
  have steps : Steps s { s.goto i (.finished (.ok (some answer))) with rows := s.rows.commit i } i
      (.finished (.ok (some answer))) :=
    ⟨rfl, unfinished, fun j other k row => commit_uncommitted.trans (and_iff_left other)⟩
  have keeps : s.Keeps
      { s.goto i (.finished (.ok (some answer))) with rows := s.rows.commit i } :=
    holds.users.commit_keeps
  refine ⟨holds.users.commits standing, fun j token now k change request => ?_,
    fun k row here => ?_⟩
  · by_cases own : j = i
    · subst own
      have there := holds.targets j token now k change request
      rw [standing] at there
      rw [steps.own]
      change TargetThere _ k (.finished (.ok (some answer)))
      exact TargetThere.keeps keeps there
    · rw [steps.other own]
      exact (holds.targets j token now k change request).keeps keeps
  · by_cases own : ∃ row, s.rows.uncommitted k = some (i, row)
    · obtain ⟨written, version⟩ := own
      change (s.rows.commit i).committed k = some row at here
      rw [commit_own version, Option.some.injEq] at here
      subst here
      cases (holds.users.pending k i written version).1 with
      | inserted inserted vacant =>
        -- the first row of the account: no request has found it before
        have phaseHolds := holds.users.phases i
        have unwritten := holds.users.unwritten version
        rw [standing] at phaseHolds unwritten
        obtain administers | ⟨-, version'⟩ := phaseHolds
        · exact absurd (creates_of_newUser inserted) administers.not_creates
        obtain ⟨⟨⟩⟩ | ⟨_, ⟨⟩, keyed⟩ := unwritten
        rw [keyed, version, Option.some.injEq, Prod.mk.injEq] at version'
        refine ⟨written, [], .inr ⟨i, inserted, ?_⟩, List.nodup_nil, .nil, ?_,
          fun j mem => absurd mem List.not_mem_nil⟩
        · rw [steps.own, version'.2]
        · intro j token now change request settled
          have other : j ≠ i := by
            rintro rfl
            rw [request] at inserted
            cases inserted
          obtain ⟨row, found⟩ := ((steps.settled other).mp settled).there
            (holds.targets j token now k change request)
          rw [vacant] at found
          cases found
      | @edited token now change before request found same =>
        obtain ⟨base, order, based, ordered⟩ := holds.orders k before found
        refine ⟨base, order ++ [i], based.steps steps, ?_⟩
        rw [same]
        refine ordered.join steps request ?_ trivial (.inl ⟨answer, steps.own⟩)
        rw [standing]
        exact fun unwritten => unwritten written version
    · have same : (s.rows.commit i).committed k = s.rows.committed k :=
        commit_other fun row version => own ⟨row, version⟩
      have here' : s.rows.committed k = some row := same ▸ here
      obtain ⟨base, order, based, ordered⟩ := holds.orders k row here'
      refine ⟨base, order, based.steps steps, ordered.keep steps ?_ fun _ _ _ _ _ => .inl trivial⟩
      intro token now change request _
      rw [standing]
      exact fun row version => own ⟨row, version⟩

theorem EditsHold.next (holds : EditsHold requests s₀ s) {op : UserOp ι}
    (moved : (userMachine settings requests).step s op = some t) : EditsHold requests s₀ t := by
  have users := holds.users.next moved
  cases op with
  | abort i text =>
    simp only [userMachine] at moved
    split at moved <;> cases moved
    exact holds.fails users (Bool.eq_false_iff.mpr ‹_›)
  | step i =>
    have unfinished := step_unfinished moved
    cases user_effect moved with
    | moves move => exact holds.moves users unfinished move
    | fails => exact holds.fails users unfinished
    | inserts standing inserted free unused wrote =>
      refine holds.writes wrote rfl rfl users unfinished fun token now k' change request => ?_
      rw [request] at inserted
      cases inserted
    | updates standing request changes here wrote =>
      refine holds.writes wrote rfl rfl users unfinished fun token now k' change request' => ?_
      rw [request] at request'
      cases request'
      exact ⟨rfl, ⟨_, here⟩, by rw [standing]; exact changes⟩
    | commits standing => exact holds.commits standing

end Orders

section Claim
variable [Platform] {τ ι : Type} [TokenLibrary τ] [DecidableEq ι]

/-- No PATCH of an account is lost: after every run, the row of each account is what the PATCH
requests on it that succeeded, run one at a time in some order, make of its first row. -/
theorem user_edits_serial (settings : Settings) (requests : ι → UserRequest τ) (s₀ s : UserRun ι)
    (initial : s₀.Initial) (ops : List (UserOp ι))
    (ran : (userMachine settings requests).run s₀ ops = some s) (k : Nat) (row : User)
    (here : s.rows.committed k = some row) :
    ∃ base order, AccountBase requests s₀ s k base ∧ order.Nodup ∧
      (∀ i, i ∈ order ↔ Administers requests i k ∧ s.Succeeded i) ∧
      Serial (EditEffect requests k) base order row := by
  classical
  have start : EditsHold requests s₀ s₀ := by
    refine ⟨userInvariant_initial initial, fun i token now k change _ => ?_, fun k row here => ?_⟩
    · rw [initial.2.2]
      trivial
    · refine ⟨row, [], .inl here, List.nodup_nil, .nil, fun i token now change _ settled => ?_,
        fun i mem => absurd mem List.not_mem_nil⟩
      rw [initial.2.2] at settled
      exact settled.elim
  have holds : EditsHold requests s₀ s :=
    run_invariant (fun _ _ _ holds moved => EditsHold.next holds moved) start ran
  obtain ⟨base, order, based, ordered⟩ := holds.orders k row here
  have placed : ∀ i, i ∈ order.filter (fun i => s.Succeeded i) ↔
      Administers requests i k ∧ s.Succeeded i := by
    intro i
    rw [List.mem_filter, decide_eq_true_eq]
    refine and_congr_left fun succeeded => ⟨fun mem => ?_, ?_⟩
    · obtain ⟨token, now, change, request, -⟩ := ordered.members i mem
      exact ⟨token, now, change, request⟩
    · rintro ⟨token, now, change, request⟩
      obtain ⟨answer, ended⟩ := succeeded
      exact ordered.settled i token now change request (by rw [ended]; trivial)
  refine ⟨base, _, based, ordered.nodup.filter _, placed, ?_⟩
  -- those without success had no effect
  refine (ordered.serial.filter fun i _ failed r r' effect => ?_).mono fun _ _ _ _ effect => effect.1
  exact effect.2.resolve_left (of_decide_eq_false failed)

end Claim

section Sample

/-- A new role and a new status for the developer, at the same time. -/
def roleAndStatus (second : Bool) : UserRequest (Claims × Str) :=
  .administer adminToken 0 2 (if second then .updateStatus false else .updateRole .admin)

/-- Both load the row before the first one writes it. -/
def bothLoaded : List (UserOp Bool) :=
  List.map .step [false, true, false, true, false, false, false, true, true, true]

theorem user_edits_serial_bothLoaded :
    let _ := asciiPlatform
    let _ := openLibrary
    ∃ s row, (staffMachine roleAndStatus).run staffRun bothLoaded = some s ∧
      s.rows.committed 2 = some row ∧ row.role = .admin ∧ row.isActive = false ∧
      ∃ base order, AccountBase roleAndStatus staffRun s 2 base ∧ order.Nodup ∧
        (∀ i, i ∈ order ↔ Administers roleAndStatus i 2 ∧ s.Succeeded i) ∧
        Serial (EditEffect roleAndStatus 2) base order row := by
  intro _ _
  obtain ⟨s, ran⟩ : ∃ s, (staffMachine roleAndStatus).run staffRun bothLoaded = some s :=
    Option.isSome_iff_exists.mp (by decide)
  have edited : ((staffMachine roleAndStatus).run staffRun bothLoaded).map
      (fun s => (s.rows.committed 2).map fun row => (row.role, row.isActive)) =
        some (some (.admin, false)) := by decide
  rw [ran, Option.map_some, Option.some.injEq, Option.map_eq_some_iff] at edited
  obtain ⟨row, here, both⟩ := edited
  rw [Prod.mk.injEq] at both
  exact ⟨s, row, ran, here, both.1, both.2, user_edits_serial sharedSecret roleAndStatus staffRun s
    staffRun_initial bothLoaded ran 2 row here⟩

end Sample

end LogLens
