import LogLens.Ingestion
import LogLens.Library.LabelledMachine
import LogLens.Library.RowVersions

/-! Ingestion and triage of one error group, each request in its own session, statement by
statement at READ COMMITTED. The row of the group is written by the upsert of an ingestion,
which reads the committed row it finds, and by the flush of a triage request, which writes the
column that differs from what the request loaded before. -/

namespace LogLens
open LabelledMachine RowVersions

/-- A payload of `ingest_log` that belongs to the group of a key. -/
structure GroupedLog [Platform] (key : GroupKey) where
  payload : LogIngestRequest
  timestamp : Timestamp
  aware : asUtcAware payload.timestamp = some timestamp
  grouped : shouldGroup payload.logLevel = true
  keyed : (groupValues payload timestamp).key = key

/-- What an ingestion draws from the sequences and the clock. -/
structure IngestReadings where
  groupId : Nat
  logId : Nat
  now : Timestamp

inductive TriageEdit
  | updateStatus (status : ErrorGroupStatus)
  | updateAssignment (currentUser : User) (assignedTo : Option Nat)

namespace TriageEdit

/-- The assignment to the loaded object. -/
def edit : TriageEdit → ErrorGroup → ErrorGroup
  | .updateStatus status, g => { g with status := status }
  | .updateAssignment _ assignedTo, g => { g with assignedTo := assignedTo }

/-- The check of the role, after the group is loaded. -/
def refused : TriageEdit → Option AppError
  | .updateStatus _ => none
  | .updateAssignment currentUser assignedTo =>
    if currentUser.role = .developer ∧ assignedTo ≠ none ∧ assignedTo ≠ some currentUser.id then
      some (authorizationError "Developers may only assign error groups to themselves.")
    else none

/-- The user that is looked up before the edit. -/
def assignee : TriageEdit → Option Nat
  | .updateStatus _ => none
  | .updateAssignment _ assignedTo => assignedTo

end TriageEdit

inductive GroupRequest [Platform] (key : GroupKey)
  | ingestLog (log : GroupedLog key) (readings : IngestReadings)
  | triage (groupId : Nat) (change : TriageEdit)

/-- What a request returns. -/
inductive GroupAnswer
  | log (log : Log)
  | group (group : ErrorGroup)

/-- The statement a request executes next, with what it has loaded. -/
inductive GroupPhase
  | start
  /-- the log row is written, after the group was read back -/
  | createLog (row : Log)
  /-- `get_by_id` of the assignee -/
  | selectAssignee (change : TriageEdit) (assignee : Nat) (loaded : ErrorGroup)
  | flush (change : TriageEdit) (loaded : ErrorGroup)
  | refresh
  | commit (answer : GroupAnswer)
  | finished (answer : Except Raised GroupAnswer)

def GroupPhase.ended : GroupPhase → Bool
  | .finished _ => true
  | _ => false

/-- Whether a request succeeded, and the error of one that did not. -/
def GroupPhase.outcome : GroupPhase → Option (Except Raised Unit)
  | .finished answer => some (answer.map fun _ => ())
  | _ => none

def GroupPhase.committed : GroupPhase → Bool
  | .finished (.ok _) => true
  | _ => false

structure GroupRun (ι : Type) where
  /-- the row of the group -/
  rows : Rows Unit ErrorGroup ι
  phase : ι → GroupPhase := fun _ => .start

inductive GroupOp (ι : Type)
  | step (i : ι)
  /-- a statement raises, or the request is cut off -/
  | abort (i : ι) (text : Str)

def GroupOp.request {ι : Type} : GroupOp ι → ι
  | .step i | .abort i _ => i

/-- The columns a flush writes are those that differ from the loaded ones. -/
def flushGroup (loaded changed row : ErrorGroup) : ErrorGroup :=
  { row with
    status := flushColumn loaded.status changed.status row.status
    assignedTo := flushColumn loaded.assignedTo changed.assignedTo row.assignedTo }

/-- A table that holds the row of the group, or nothing. -/
def groupRows {ι : Type} (row : Option ErrorGroup) : Rows Unit ErrorGroup ι where
  keys := [()]
  nodup := List.nodup_singleton ()
  committed _ := row
  uncommitted _ := none
  listed _ _ := List.mem_singleton_self ()

section Machine
variable [Platform] {key : GroupKey} {ι : Type} [DecidableEq ι] (users : List User)
  (requests : ι → GroupRequest key)

def GroupedLog.values (log : GroupedLog key) : GroupValues := groupValues log.payload log.timestamp

/-- The row an upsert writes over the committed one. -/
def GroupedLog.upserted (log : GroupedLog key) (readings : IngestReadings) :
    Option ErrorGroup → ErrorGroup
  | none => log.values.inserted readings.groupId readings.now
  | some g => log.values.onConflict g

def GroupRun.goto (s : GroupRun ι) (i : ι) (phase : GroupPhase) : GroupRun ι :=
  { s with phase := Function.update s.phase i phase }

/-- A statement writes the row, once no other transaction locks it. -/
def GroupRun.write (s : GroupRun ι) (i : ι) (row : ErrorGroup) (next : GroupPhase) :
    Option (GroupRun ι) :=
  (s.rows.write i () row).map fun rows => { s.goto i next with rows := rows }

/-- The request raises, and its transaction is rolled back. -/
def GroupRun.fail (s : GroupRun ι) (i : ι) (error : Raised) : GroupRun ι :=
  { s.goto i (.finished (.error error)) with rows := s.rows.rollback i }

/-- `get_by_id` of a triage request -/
def GroupRun.load (s : GroupRun ι) (groupId : Nat) : Option ErrorGroup :=
  (s.rows.committed ()).filter fun g => g.id = groupId

/-- `StaleDataError` of an UPDATE, `InvalidRequestError` of a refresh: the row is gone. -/
def rowGone : Raised := .other "row gone".toList

def GroupRun.begin (s : GroupRun ι) (i : ι) : GroupRequest key → Option (GroupRun ι)
  | .ingestLog log readings =>
    let group := log.upserted readings (s.rows.committed ())
    s.write i group (.createLog (logRow readings.now log.payload log.timestamp
      (some (payloadFingerprint log.payload)) (some group.id) readings.logId))
  | .triage groupId change =>
    match s.load groupId with
    | none => some (s.fail i (.app (notFoundError "ErrorGroup")))
    | some loaded =>
      match change.refused with
      | some e => some (s.fail i (.app e))
      | none =>
        match change.assignee with
        | some assignee => some (s.goto i (.selectAssignee change assignee loaded))
        | none => some (s.goto i (.flush change loaded))

def GroupRun.step (s : GroupRun ι) (i : ι) : Option (GroupRun ι) :=
  match s.phase i with
  | .start => s.begin i (requests i)
  | .createLog row => some (s.goto i (.commit (.log row)))
  | .selectAssignee change assignee loaded =>
    if users.any fun u => u.id = assignee then some (s.goto i (.flush change loaded))
    else some (s.fail i (.app (notFoundError "User")))
  | .flush change loaded =>
    -- an object without a change makes no UPDATE, and so takes no lock
    if change.edit loaded = loaded then some (s.goto i .refresh)
    else
      match s.rows.committed () with
      | none => some (s.fail i rowGone)
      | some row => s.write i (flushGroup loaded (change.edit loaded) row) .refresh
  | .refresh =>
    match s.rows.afterCommit i () with
    | none => some (s.fail i rowGone)
    | some row => some (s.goto i (.commit (.group row)))
  | .commit answer => some { s.goto i (.finished (.ok answer)) with rows := s.rows.commit i }
  | .finished _ => none

def groupMachine : Machine (GroupRun ι) (GroupOp ι) where
  step s
    | .step i => s.step users requests i
    | .abort i text =>
      if (s.phase i).ended then none else some (s.fail i (.other text))

end Machine

theorem edit_id (change : TriageEdit) (g : ErrorGroup) : (change.edit g).id = g.id := by
  cases change <;> rfl

/-- An edit writes one column, so its flush is the edit of whatever row it finds. -/
theorem flushGroup_edit {change : TriageEdit} {loaded : ErrorGroup}
    (changes : change.edit loaded ≠ loaded) (row : ErrorGroup) :
    flushGroup loaded (change.edit loaded) row = change.edit row := by
  cases change with
  | updateStatus status =>
    have differs : status ≠ loaded.status := by
      rintro rfl
      exact changes rfl
    simp [flushGroup, TriageEdit.edit, flushColumn_changed differs]
  | updateAssignment currentUser assignedTo =>
    have differs : assignedTo ≠ loaded.assignedTo := by
      rintro rfl
      exact changes rfl
    simp [flushGroup, TriageEdit.edit, flushColumn_changed differs]

section Alone
variable [Platform] {key : GroupKey} (users : List User)

/-- The checks of a triage request behind the load of the group. -/
def TriageEdit.check (change : TriageEdit) : Option AppError :=
  match change.refused with
  | some e => some e
  | none =>
    if change.assignee.any fun assignee => !users.any fun u => u.id = assignee then
      some (notFoundError "User")
    else none

/-- What a request makes of the row when no other runs: its outcome and the row it leaves. -/
def GroupRequest.alone (request : GroupRequest key) (row : Option ErrorGroup) :
    Except Raised Unit × Option ErrorGroup :=
  match request with
  | .ingestLog log readings => (.ok (), some (log.upserted readings row))
  | .triage groupId change =>
    match row.filter fun g => g.id = groupId with
    | none => (.error (.app (notFoundError "ErrorGroup")), row)
    | some g =>
      match change.check users with
      | some e => (.error (.app e), row)
      | none => (.ok (), some (change.edit g))

theorem upserted_id (log : GroupedLog key) (readings : IngestReadings) (g : ErrorGroup) :
    (log.upserted readings (some g)).id = g.id := rfl

variable {users}

omit [Platform] in
theorem check_assignee (users : List User) {change : TriageEdit} {assignee : Nat}
    (refused : change.refused = none)
    (looks : change.assignee = some assignee) :
    change.check users =
      if users.any fun u => u.id = assignee then none else some (notFoundError "User") := by
  simp only [TriageEdit.check, refused, looks, Option.any_some]
  cases users.any fun u => u.id = assignee <;> rfl

theorem alone_missing {groupId : Nat} {change : TriageEdit} {row : Option ErrorGroup}
    (missing : row.filter (fun g => g.id = groupId) = none) :
    (GroupRequest.triage groupId change : GroupRequest key).alone users row =
      (.error (.app (notFoundError "ErrorGroup")), row) := by
  simp [GroupRequest.alone, missing]

/-- A request that found the group by its id. -/
theorem alone_found {groupId : Nat} {change : TriageEdit} {g : ErrorGroup}
    (found : g.id = groupId) :
    (GroupRequest.triage groupId change : GroupRequest key).alone users (some g) =
      match change.check users with
      | some e => (.error (.app e), some g)
      | none => (.ok (), some (change.edit g)) := by
  simp [GroupRequest.alone, Option.filter, found]

theorem alone_refused {change : TriageEdit} {g : ErrorGroup} {e : AppError}
    (refused : change.check users = some e) :
    (GroupRequest.triage g.id change : GroupRequest key).alone users (some g) =
      (.error (.app e), some g) := by
  rw [alone_found rfl, refused]

theorem alone_edits {change : TriageEdit} {g : ErrorGroup} (checked : change.check users = none) :
    (GroupRequest.triage g.id change : GroupRequest key).alone users (some g) =
      (.ok (), some (change.edit g)) := by
  rw [alone_found rfl, checked]

/-- A triage request leaves the row or edits it. -/
theorem alone_triage (users : List User) (key : GroupKey) (groupId : Nat) (change : TriageEdit)
    (row : Option ErrorGroup) :
    ((GroupRequest.triage groupId change : GroupRequest key).alone users row).2 = row ∨
      ∃ g, row = some g ∧ ((GroupRequest.triage groupId change : GroupRequest key).alone users
        row).2 = some (change.edit g) := by
  cases found : row.filter fun g => g.id = groupId with
  | none => exact .inl (by rw [alone_missing found])
  | some g =>
    obtain ⟨rfl, found'⟩ := Option.filter_eq_some_iff.mp found
    rw [alone_found (of_decide_eq_true found')]
    cases change.check users with
    | some e => exact .inl rfl
    | none => exact .inr ⟨g, rfl, rfl⟩

/-- A request leaves the id of the group as it is. -/
theorem alone_id (users : List User) (request : GroupRequest key) (g : ErrorGroup) :
    ∃ g', (request.alone users (some g)).2 = some g' ∧ g'.id = g.id := by
  cases request with
  | ingestLog log readings => exact ⟨_, rfl, upserted_id log readings g⟩
  | triage groupId change =>
    rcases alone_triage users key groupId change (some g) with
      same | ⟨g', ⟨⟩, edits⟩
    · exact ⟨g, same, rfl⟩
    · exact ⟨_, edits, edit_id change g⟩

end Alone

section LoneRuns
variable [Platform] {key : GroupKey} {ι : Type} [DecidableEq ι] {users : List User}
  {requests : ι → GroupRequest key} {phases : ι → GroupPhase} {i : ι} {phase : GroupPhase}
  {row version : Option ErrorGroup} {s t : GroupRun ι}

/-- `i` runs and no other request does: the committed row, and the version of `i`. -/
structure Lone (phases : ι → GroupPhase) (i : ι) (phase : GroupPhase)
    (row version : Option ErrorGroup) (s : GroupRun ι) : Prop where
  phase : s.phase = Function.update phases i phase
  committed : s.rows.committed () = row
  uncommitted : s.rows.uncommitted () = version.map fun g => (i, g)

/-- Steps of `i` alone lead to its end, with this outcome and this row. -/
def EndsAlone (users : List User) (requests : ι → GroupRequest key) (phases : ι → GroupPhase)
    (i : ι) (s : GroupRun ι) (outcome : Except Raised Unit) (row : Option ErrorGroup) : Prop :=
  ∃ ops t answer, (∀ op ∈ ops, op.request = i) ∧
    (groupMachine users requests).run s ops = some t ∧
    Lone phases i (.finished answer) row none t ∧ answer.map (fun _ => ()) = outcome

omit [Platform] in
theorem Lone.own (lone : Lone phases i phase row version s) : s.phase i = phase := by
  rw [lone.phase, Function.update_self]

omit [Platform] in
theorem Lone.goto (lone : Lone phases i phase row version s) (next : GroupPhase) :
    Lone phases i next row version (s.goto i next) where
  phase := by
    change Function.update s.phase i next = _
    rw [lone.phase, Function.update_idem]
  committed := lone.committed
  uncommitted := lone.uncommitted

omit [Platform] in
theorem Lone.fail (lone : Lone phases i phase row version s) (error : Raised) :
    Lone phases i (.finished (.error error)) row none (s.fail i error) where
  phase := (lone.goto _).phase
  committed := lone.committed
  uncommitted := by
    change (s.rows.uncommitted ()).filter _ = none
    rw [lone.uncommitted]
    cases version <;> simp [Option.filter]

omit [Platform] in
/-- Nothing keeps a lone request from writing. -/
theorem Lone.write (lone : Lone phases i phase row version s) (g : ErrorGroup)
    (next : GroupPhase) :
    ∃ t, s.write i g next = some t ∧ Lone phases i next row (some g) t := by
  cases wrote : s.rows.write i () g with
  | none =>
    unfold Rows.write Rows.lockedAgainst at wrote
    rw [lone.uncommitted] at wrote
    cases version <;> simp at wrote
  | some rows =>
    refine ⟨{ s.goto i next with rows := rows }, by rw [GroupRun.write, wrote]; rfl,
      (lone.goto next).phase, ?_, ?_⟩
    · change rows.committed () = row
      rw [write_committed wrote, lone.committed]
    · change rows.uncommitted () = _
      rw [write_uncommitted wrote, Function.update_self]
      rfl

theorem EndsAlone.step {outcome : Except Raised Unit}
    (moved : s.step users requests i = some t)
    (ends : EndsAlone users requests phases i t outcome row) :
    EndsAlone users requests phases i s outcome row := by
  obtain ⟨ops, u, answer, own, ran, lone, same⟩ := ends
  refine ⟨.step i :: ops, u, answer, ?_, ?_, lone, same⟩
  · intro op hop
    rcases List.mem_cons.mp hop with rfl | hop
    · rfl
    · exact own op hop
  · rw [run_cons]
    change (s.step users requests i).bind _ = _
    rw [moved]
    exact ran

theorem Lone.ended {answer : Except Raised GroupAnswer}
    (lone : Lone phases i (.finished answer) row none s) :
    EndsAlone users requests phases i s (answer.map fun _ => ()) row :=
  ⟨[], s, answer, by simp, rfl, lone, rfl⟩

theorem Lone.commit {answer : GroupAnswer}
    (lone : Lone phases i (.commit answer) row version s) :
    EndsAlone users requests phases i s (.ok ()) (version.or row) := by
  refine .step (by rw [GroupRun.step, lone.own])
    (Lone.ended (?_ : Lone phases i (.finished (.ok answer)) _ none _))
  refine ⟨(lone.goto _).phase, ?_, ?_⟩
  · change s.rows.afterCommit i () = _
    unfold Rows.afterCommit
    rw [lone.uncommitted]
    cases version with
    | none => exact lone.committed
    | some g => simp
  · change (s.rows.uncommitted ()).filter _ = none
    rw [lone.uncommitted]
    cases version <;> simp [Option.filter]

theorem Lone.refresh {g : ErrorGroup} (lone : Lone phases i .refresh row version s)
    (visible : version.or row = some g) :
    EndsAlone users requests phases i s (.ok ()) (some g) := by
  have sees : s.rows.afterCommit i () = some g := by
    unfold Rows.afterCommit
    rw [lone.uncommitted, lone.committed, ← visible]
    cases version <;> simp
  have moved : s.step users requests i = some (s.goto i (.commit (.group g))) := by
    rw [GroupRun.step, lone.own]
    simp only [sees]
  exact visible ▸ EndsAlone.step moved (lone.goto _).commit

theorem Lone.flush {change : TriageEdit} {loaded : ErrorGroup}
    (lone : Lone phases i (.flush change loaded) (some loaded) none s) :
    EndsAlone users requests phases i s (.ok ()) (some (change.edit loaded)) := by
  by_cases idle : change.edit loaded = loaded
  · rw [idle]
    refine .step ?_ ((lone.goto _).refresh rfl)
    rw [GroupRun.step, lone.own]
    exact if_pos idle
  · obtain ⟨t, wrote, next⟩ := lone.write (change.edit loaded) .refresh
    refine .step ?_ (next.refresh rfl)
    rw [GroupRun.step, lone.own, ← wrote]
    simp only [if_neg idle, lone.committed, flushGroup_edit idle]

theorem Lone.selectAssignee {change : TriageEdit} {assignee : Nat} {loaded : ErrorGroup}
    (refused : change.refused = none) (looks : change.assignee = some assignee)
    (lone : Lone phases i (.selectAssignee change assignee loaded) (some loaded) none s) :
    EndsAlone users requests phases i s
      ((GroupRequest.triage loaded.id change : GroupRequest key).alone users (some loaded)).1
      ((GroupRequest.triage loaded.id change : GroupRequest key).alone users (some loaded)).2 := by
  rw [alone_found rfl, check_assignee users refused looks]
  by_cases known : users.any (fun u => u.id = assignee) = true
  · rw [if_pos known]
    refine .step ?_ (lone.goto _).flush
    rw [GroupRun.step, lone.own]
    exact if_pos known
  · rw [if_neg known]
    refine .step ?_ (lone.fail _).ended
    rw [GroupRun.step, lone.own]
    exact if_neg known

theorem Lone.triage (users : List User) {groupId : Nat} {change : TriageEdit}
    (request : requests i = .triage groupId change)
    (lone : Lone phases i .start row none s) :
    EndsAlone users requests phases i s ((requests i).alone users row).1
      ((requests i).alone users row).2 := by
  have begins : s.step users requests i =
      s.begin i (GroupRequest.triage groupId change : GroupRequest key) := by
    rw [GroupRun.step, lone.own, ← request]
  have load : s.load groupId = row.filter fun g => g.id = groupId := by
    rw [GroupRun.load, lone.committed]
  rw [GroupRun.begin, load] at begins
  rw [request]
  cases found : row.filter fun g => g.id = groupId with
  | none =>
    rw [alone_missing found]
    simp only [found] at begins
    exact .step begins (lone.fail _).ended
  | some loaded =>
    obtain ⟨rfl, found'⟩ := Option.filter_eq_some_iff.mp found
    have found' : loaded.id = groupId := of_decide_eq_true found'
    subst found'
    simp only [found] at begins
    cases refused : change.refused with
    | some e =>
      simp only [refused] at begins
      have checked : change.check users = some e := by simp [TriageEdit.check, refused]
      rw [alone_found rfl, checked]
      exact .step begins (lone.fail _).ended
    | none =>
      cases assignee : change.assignee with
      | some user =>
        simp only [refused, assignee] at begins
        exact .step begins ((lone.goto _).selectAssignee refused assignee)
      | none =>
        simp only [refused, assignee] at begins
        have checked : change.check users = none := by simp [TriageEdit.check, refused, assignee]
        rw [alone_found rfl, checked]
        exact .step begins (lone.goto _).flush

/-- A request that runs alone does what `alone` says. -/
theorem Lone.start (users : List User) (lone : Lone phases i .start row none s) :
    EndsAlone users requests phases i s ((requests i).alone users row).1
      ((requests i).alone users row).2 := by
  cases request : requests i with
  | ingestLog log readings =>
    let log' := logRow readings.now log.payload log.timestamp
      (some (payloadFingerprint log.payload)) (some (log.upserted readings row).id) readings.logId
    obtain ⟨t, wrote, next⟩ := lone.write (log.upserted readings row) (.createLog log')
    have creates : t.step users requests i = some (t.goto i (.commit (.log log'))) := by
      rw [GroupRun.step, next.own]
    refine .step ?_ (.step creates (next.goto _).commit)
    rw [GroupRun.step, lone.own, request, ← wrote, GroupRun.begin, lone.committed]
  | triage groupId change =>
    have ends := lone.triage users request
    rw [request] at ends
    exact ends

end LoneRuns

end LogLens
