import LogLens.GroupSerialization

/-! Who may have set the status and the assignee that a group is found with. -/

namespace LogLens
open LabelledMachine SerialOrder

section Authority
variable [Platform] {key : GroupKey} {ι : Type} (users : List User)
  (requests : ι → GroupRequest key) (init : Option ErrorGroup) (phase : ι → GroupPhase)

/-- The status of a group is the first one or one that a request set which succeeded; so is its
assignee, a user that exists, whom a developer only chose for herself. -/
structure TriagedBy (g : ErrorGroup) : Prop where
  status : g.status = (init.map (·.status)).getD .unresolved ∨
    ∃ i, requests i = .triage g.id (.updateStatus g.status) ∧ (phase i).committed = true
  assignedTo : g.assignedTo = init.bind (·.assignedTo) ∨
    ∃ i currentUser, requests i = .triage g.id (.updateAssignment currentUser g.assignedTo) ∧
      (phase i).committed = true ∧
      (currentUser.role = .developer → g.assignedTo = none ∨ g.assignedTo = some currentUser.id) ∧
      ∀ assignee ∈ g.assignedTo, ∃ u ∈ users, u.id = assignee

variable {users requests init phase}

omit [Platform] in
theorem check_updateAssignment {currentUser : User} {assignedTo : Option Nat}
    (checked : (TriageEdit.updateAssignment currentUser assignedTo).check users = none) :
    (currentUser.role = .developer → assignedTo = none ∨ assignedTo = some currentUser.id) ∧
      ∀ assignee ∈ assignedTo, ∃ u ∈ users, u.id = assignee := by
  unfold TriageEdit.check at checked
  split at checked
  · cases checked
  · rename_i allowed
    simp only [TriageEdit.refused, ite_eq_right_iff, reduceCtorEq, imp_false] at allowed
    constructor
    · intro developer
      by_contra other
      rw [not_or] at other
      exact allowed ⟨developer, other⟩
    · rintro assignee ⟨⟩
      by_contra missing
      have none : (users.any fun u => u.id = assignee) = false := by simpa using missing
      simp [TriageEdit.assignee, none] at checked

/-- An effect leaves the row, or it is the upsert of an ingestion, or the edit of a triage
request that passed its checks and succeeded. -/
theorem Effect.cases {request : GroupRequest key} {taken : GroupPhase}
    {row row' : Option ErrorGroup} (effect : Effect users request taken row row') :
    row' = row ∨
    (∃ log readings, request = .ingestLog log readings ∧ row' = some (log.upserted readings row)) ∨
    ∃ g change, row = some g ∧ request = .triage g.id change ∧ change.check users = none ∧
      taken.committed = true ∧ row' = some (change.edit g) := by
  cases effect with
  | aborted | looksUp | flushes | refreshes | commits => exact .inl rfl
  | @answered answer _ _ alone =>
    cases request with
    | ingestLog log readings =>
      exact .inr (.inl ⟨log, readings, rfl, (congrArg Prod.snd alone).symm⟩)
    | triage groupId change =>
      cases found : row.filter fun g => g.id = groupId with
      | none =>
        rw [alone_missing found] at alone
        exact .inl (congrArg Prod.snd alone).symm
      | some g =>
        obtain ⟨rfl, same⟩ := Option.filter_eq_some_iff.mp found
        have same := of_decide_eq_true same
        rw [alone_found same] at alone
        subst same
        cases checked : change.check users with
        | some e =>
          rw [checked] at alone
          exact .inl (congrArg Prod.snd alone).symm
        | none =>
          rw [checked] at alone
          refine .inr (.inr ⟨g, change, rfl, rfl, checked, ?_, (congrArg Prod.snd alone).symm⟩)
          cases answer with
          | error e => cases congrArg Prod.fst alone
          | ok answer => rfl

theorem TriagedBy.edit {g : ErrorGroup} (h : TriagedBy users requests init phase g) {i : ι}
    {change : TriageEdit} (own : requests i = .triage g.id change)
    (checked : change.check users = none) (done : (phase i).committed = true) :
    TriagedBy users requests init phase (change.edit g) := by
  cases change with
  | updateStatus status => exact ⟨.inr ⟨i, own, done⟩, h.assignedTo⟩
  | updateAssignment currentUser assignedTo =>
    obtain ⟨self, known⟩ := check_updateAssignment checked
    exact ⟨h.status, .inr ⟨i, currentUser, own, done, self, known⟩⟩

theorem TriagedBy.upserted {g : ErrorGroup} (h : TriagedBy users requests init phase g)
    (log : GroupedLog key) (readings : IngestReadings) :
    TriagedBy users requests init phase (log.upserted readings (some g)) :=
  ⟨h.status, h.assignedTo⟩

/-- Whatever the interleaving, the row tells what some authorized request put there. Ingestions
set neither the status nor the assignee of a group that exists. -/
theorem triage_authorized [DecidableEq ι] {ops : List (GroupOp ι)} {s : GroupRun ι}
    (ran : (groupMachine users requests).run { rows := groupRows init } ops = some s) :
    ∀ g ∈ s.rows.committed (), TriagedBy users requests init s.phase g := by
  obtain ⟨order, holds⟩ := serialized_run ran
  refine (holds.serial.invariant (I := fun row =>
    (∀ g ∈ row, TriagedBy users requests init s.phase g) ∧ (row = none → init = none))
    ⟨?_, id⟩ fun i _ row row' before effect => ?_).1
  · rintro g rfl
    exact ⟨.inl rfl, .inl rfl⟩
  · rcases effect.cases with same | ⟨log, readings, -, rfl⟩ |
      ⟨g, change, rfl, own, checked, done, rfl⟩
    · exact same ▸ before
    · refine ⟨?_, by rintro ⟨⟩⟩
      rintro g ⟨⟩
      cases row with
      | some g => exact (before.1 g rfl).upserted log readings
      | none =>
        rw [before.2 rfl]
        exact ⟨.inl rfl, .inl rfl⟩
    · refine ⟨?_, by rintro ⟨⟩⟩
      rintro _ ⟨⟩
      exact (before.1 g rfl).edit own checked done

end Authority

/-- The assignee of a group that two ingestions and two edits raced for. -/
theorem triage_authorized_racing : ∃ s g, racingMachine.run { rows := groupRows none } racingOps =
    some s ∧ s.rows.committed () = some g ∧ g.assignedTo = some 7 ∧
    @TriagedBy asciiPlatform racingKey _ [{ id := 7, email := [], passwordHash := [] }]
      racingRequests none s.phase g := by
  let _ := asciiPlatform
  have row : (racingMachine.run { rows := groupRows none } racingOps).map (fun s =>
      (s.rows.committed ()).map (·.assignedTo)) = some (some (some 7)) := by decide
  obtain ⟨s, ran, row⟩ := Option.map_eq_some_iff.mp row
  obtain ⟨g, row, assigned⟩ := Option.map_eq_some_iff.mp row
  exact ⟨s, g, ran, row, assigned, triage_authorized ran g row⟩

end LogLens
