import LogLens.GroupRequests
import LogLens.Library.SerialOrder

/-! Ingestion and triage are serializable. A request takes effect when it commits, and one that
writes nothing takes effect when it ends; but a triage request whose edit matches what it has
loaded takes effect at that load, since the row may have moved on when it ends. -/

namespace LogLens
open LabelledMachine RowVersions SerialOrder

/-- `occurrence_count`, and zero for a group that does not exist. -/
def occurrences (row : Option ErrorGroup) : Nat := (row.map (·.occurrenceCount)).getD 0

def GroupRequest.ingests [Platform] {key : GroupKey} : GroupRequest key → Bool
  | .ingestLog .. => true
  | .triage .. => false

section Effects
variable [Platform] {key : GroupKey} (users : List User)

/-- The effect of a request on the row. One whose edit changes nothing takes effect when it
loads the group, before it has ended. -/
inductive Effect (request : GroupRequest key) :
    GroupPhase → Option ErrorGroup → Option ErrorGroup → Prop
  | answered {answer : Except Raised GroupAnswer} {row row' : Option ErrorGroup} :
    request.alone users row = (answer.map fun _ => (), row') →
    Effect request (.finished answer) row row'
  | aborted {text : Str} {row : Option ErrorGroup} :
    Effect request (.finished (.error (.other text))) row row
  | looksUp {change : TriageEdit} {assignee : Nat} {loaded : ErrorGroup} :
    request = .triage loaded.id change → change.refused = none →
    change.assignee = some assignee → change.edit loaded = loaded →
    Effect request (.selectAssignee change assignee loaded) (some loaded) (some loaded)
  | flushes {change : TriageEdit} {loaded : ErrorGroup} {row : Option ErrorGroup} :
    change.edit loaded = loaded → request.alone users row = (.ok (), row) →
    Effect request (.flush change loaded) row row
  | refreshes {row : Option ErrorGroup} : request.alone users row = (.ok (), row) →
    Effect request .refresh row row
  | commits {answer : GroupAnswer} {row : Option ErrorGroup} :
    request.alone users row = (.ok (), row) → Effect request (.commit answer) row row

variable {users}

theorem Effect.id {request : GroupRequest key} {phase : GroupPhase} {g : ErrorGroup}
    {row : Option ErrorGroup} (effect : Effect users request phase (some g) row) :
    ∃ g', row = some g' ∧ g'.id = g.id := by
  cases effect with
  | answered alone =>
    obtain ⟨g', left, same⟩ := alone_id users request g
    exact ⟨g', by rw [← left, alone], same⟩
  | aborted | looksUp | flushes | refreshes | commits => exact ⟨g, rfl, rfl⟩

/-- A request that has not ended has no effect yet. -/
theorem Effect.idle {request : GroupRequest key} {phase : GroupPhase}
    {row row' : Option ErrorGroup} (effect : Effect users request phase row row')
    (running : phase.ended = false) : row' = row := by
  cases effect with
  | answered | aborted => cases running
  | looksUp | flushes | refreshes | commits => rfl

/-- An ingestion that commits counts one, and nothing else does. -/
theorem Effect.counts {request : GroupRequest key} {phase : GroupPhase}
    {row row' : Option ErrorGroup} (effect : Effect users request phase row row')
    (ended : phase.ended = true) :
    occurrences row' =
      occurrences row + if (request.ingests && phase.committed) = true then 1 else 0 := by
  cases effect with
  | aborted => simp [GroupPhase.committed]
  | looksUp | flushes | refreshes | commits => cases ended
  | @answered answer _ _ alone =>
    cases request with
    | ingestLog log readings =>
      cases answer with
      | error e => cases alone
      | ok answer =>
        obtain rfl : some (log.upserted readings row) = row' := congrArg Prod.snd alone
        cases row with
        | none => rfl
        | some g => rfl
    | triage groupId change =>
      change occurrences row' = occurrences row + 0
      obtain rfl : _ = row' := congrArg Prod.snd alone
      rcases alone_triage users key groupId change row with
        same | ⟨g, rfl, edits⟩
      · rw [same]
        rfl
      · rw [edits]
        cases change <;> rfl

/-- The row has the key of the group its requests are about. -/
theorem Effect.keyed {request : GroupRequest key} {phase : GroupPhase}
    {row row' : Option ErrorGroup} (effect : Effect users request phase row row')
    (before : ∀ g ∈ row, g.key = key) : ∀ g ∈ row', g.key = key := by
  cases effect with
  | aborted | looksUp | flushes | refreshes | commits => exact before
  | @answered answer _ _ alone =>
    cases request with
    | ingestLog log readings =>
      obtain rfl : some (log.upserted readings row) = row' := congrArg Prod.snd alone
      rintro g ⟨⟩
      cases row with
      | none => exact log.keyed
      | some g => exact before g rfl
    | triage groupId change =>
      obtain rfl : _ = row' := congrArg Prod.snd alone
      rcases alone_triage users key groupId change row with
        same | ⟨g, rfl, edits⟩
      · rw [same]
        exact before
      · rw [edits]
        rintro g' ⟨⟩
        have same : (change.edit g).key = g.key := by cases change <;> rfl
        exact same.trans (before g rfl)

/-- An effect is had by the request alone, with the same outcome. -/
theorem Lone.effect {ι : Type} [DecidableEq ι] {requests : ι → GroupRequest key}
    {phases : ι → GroupPhase} {i : ι} {s : GroupRun ι} {taken : GroupPhase}
    {row row' : Option ErrorGroup} (lone : Lone phases i .start row none s)
    (effect : Effect users (requests i) taken row row') (ended : taken.ended = true) :
    ∃ outcome, taken.outcome = some outcome ∧
      EndsAlone users requests phases i s outcome row' := by
  cases effect with
  | @answered answer _ _ alone =>
    refine ⟨_, rfl, ?_⟩
    have ends : EndsAlone users requests phases i s _ _ := lone.start users
    rw [alone] at ends
    exact ends
  | @aborted text =>
    refine ⟨_, rfl, [.abort i text], s.fail i (.other text), _, ?_, ?_, lone.fail _, rfl⟩
    · intro op hop
      rw [List.mem_singleton.mp hop]
      rfl
    · rw [run_cons]
      change (if (s.phase i).ended then none else some (s.fail i (.other text))).bind _ = _
      rw [lone.own]
      rfl
  | looksUp | flushes | refreshes | commits => cases ended

end Effects

section Moves
variable {ι : Type} [DecidableEq ι] {s t : GroupRun ι} {i : ι} {phase : GroupPhase}

/-- The request has an uncommitted version of the row. -/
def GroupRun.holds (s : GroupRun ι) (i : ι) : Prop := ∃ row, s.rows.uncommitted () = some (i, row)

/-- A statement of `i`: the other requests keep their phases and their versions of the row. -/
structure Moves (i : ι) (phase : GroupPhase) (s t : GroupRun ι) : Prop where
  phase : t.phase = Function.update s.phase i phase
  others : ∀ j, j ≠ i → ∀ row,
    t.rows.uncommitted () = some (j, row) ↔ s.rows.uncommitted () = some (j, row)

theorem Moves.own (moves : Moves i phase s t) : t.phase i = phase := by
  rw [moves.phase, Function.update_self]

theorem Moves.other (moves : Moves i phase s t) {j : ι} (other : j ≠ i) :
    t.phase j = s.phase j := by
  rw [moves.phase, Function.update_of_ne other]

theorem Moves.holds (moves : Moves i phase s t) {j : ι} (other : j ≠ i) :
    s.holds j ↔ t.holds j :=
  exists_congr fun row => (moves.others j other row).symm

theorem moves_goto : Moves i phase s (s.goto i phase) := ⟨rfl, fun _ _ _ => Iff.rfl⟩

theorem moves_fail {error : Raised} : Moves i (.finished (.error error)) s (s.fail i error) where
  phase := rfl
  others j other row := by
    change (s.rows.rollback i).uncommitted () = some (j, row) ↔ _
    rw [rollback_uncommitted]
    exact and_iff_left other

theorem moves_write {row : ErrorGroup} (wrote : s.write i row phase = some t) :
    Moves i phase s t ∧ t.rows.committed () = s.rows.committed () ∧
      t.rows.uncommitted () = some (i, row) := by
  unfold GroupRun.write at wrote
  rw [Option.map_eq_some_iff] at wrote
  obtain ⟨rows, wrote, rfl⟩ := wrote
  have version : rows.uncommitted () = some (i, row) := by
    rw [write_uncommitted wrote, Function.update_self]
  refine ⟨⟨rfl, fun j other row' => ?_⟩, congrFun (write_committed wrote) (), version⟩
  constructor
  · intro here
    have same := version.symm.trans here
    rw [Option.some.injEq, Prod.mk.injEq] at same
    exact absurd same.1.symm other
  · intro before
    exact absurd (write_free wrote before) other

theorem fail_free {error : Raised} : ¬ (s.fail i error).holds i := by
  rintro ⟨row, here⟩
  change (s.rows.rollback i).uncommitted () = _ at here
  exact (rollback_uncommitted.mp here).2 rfl

end Moves

section Invariant
variable [Platform] {key : GroupKey} {ι : Type} {users : List User}
  {requests : ι → GroupRequest key} {init : Option ErrorGroup}

/-- The row that was loaded is still there. -/
def StillThere (loaded : ErrorGroup) (row : Option ErrorGroup) : Prop :=
  ∃ g, row = some g ∧ g.id = loaded.id

/-- A request that has yet to take effect: it has a change to write, or it has written the
row and holds its lock. -/
inductive Waits (users : List User) (request : GroupRequest key) (row : Option ErrorGroup)
    (holds : Prop) : GroupPhase → Prop
  | starts : ¬ holds → Waits users request row holds .start
  | createsLog {log : Log} : holds → Waits users request row holds (.createLog log)
  | looksUp {change : TriageEdit} {assignee : Nat} {loaded : ErrorGroup} :
    request = .triage loaded.id change → change.refused = none →
    change.assignee = some assignee → change.edit loaded ≠ loaded → StillThere loaded row →
    ¬ holds → Waits users request row holds (.selectAssignee change assignee loaded)
  | flushes {change : TriageEdit} {loaded : ErrorGroup} :
    request = .triage loaded.id change → change.check users = none →
    change.edit loaded ≠ loaded → StillThere loaded row →
    ¬ holds → Waits users request row holds (.flush change loaded)
  | refreshes : holds → Waits users request row holds .refresh
  | commits {answer : GroupAnswer} : holds → Waits users request row holds (.commit answer)

theorem Waits.mono {request : GroupRequest key} {row row' : Option ErrorGroup}
    {holds holds' : Prop} {phase : GroupPhase} (waits : Waits users request row holds phase)
    (kept : ∀ loaded, StillThere loaded row → StillThere loaded row') (same : holds ↔ holds') :
    Waits users request row' holds' phase := by
  cases waits with
  | starts free => exact .starts (same.not.mp free)
  | createsLog own => exact .createsLog (same.mp own)
  | looksUp is allowed looked changes there free =>
    exact .looksUp is allowed looked changes (kept _ there) (same.not.mp free)
  | flushes is checked changes there free =>
    exact .flushes is checked changes (kept _ there) (same.not.mp free)
  | refreshes own => exact .refreshes (same.mp own)
  | commits own => exact .commits (same.mp own)

/-- The committed row is the work of the requests of a list, in this order. -/
structure Serialized (users : List User) (requests : ι → GroupRequest key)
    (init : Option ErrorGroup) (order : List ι) (s : GroupRun ι) : Prop where
  nodup : order.Nodup
  serial : Serial (fun i => Effect users (requests i) (s.phase i)) init order
    (s.rows.committed ())
  waits : ∀ i, i ∉ order →
    Waits users (requests i) (s.rows.committed ()) (s.holds i) (s.phase i)
  holder : ∀ i row, s.rows.uncommitted () = some (i, row) →
    i ∉ order ∧ (requests i).alone users (s.rows.committed ()) = (.ok (), some row)

theorem serialized_initial :
    Serialized users requests init [] ({ rows := groupRows init } : GroupRun ι) where
  nodup := List.nodup_nil
  serial := .nil
  waits _ _ := .starts (by rintro ⟨row, ⟨⟩⟩)
  holder := by rintro i row ⟨⟩

variable [DecidableEq ι] {order : List ι} {s t : GroupRun ι} {i : ι} {phase : GroupPhase}

/-- A placed request goes on. -/
theorem Serialized.keep (holds : Serialized users requests init order s) (placed : i ∈ order)
    (moves : Moves i phase s t) (same : t.rows.committed () = s.rows.committed ())
    (free : ¬ t.holds i)
    (effect : ∀ row row', Effect users (requests i) (s.phase i) row row' →
      Effect users (requests i) phase row row') : Serialized users requests init order t where
  nodup := holds.nodup
  serial := by
    rw [same]
    refine holds.serial.mono fun j _ row row' before => ?_
    by_cases own : j = i
    · subst own
      rw [moves.own]
      exact effect row row' before
    · rw [moves.other own]
      exact before
  waits j out := by
    have other : j ≠ i := by
      rintro rfl
      exact out placed
    rw [moves.other other, same]
    exact (holds.waits j out).mono (fun _ there => there) (moves.holds other)
  holder j row here := by
    have other : j ≠ i := by
      rintro rfl
      exact free ⟨row, here⟩
    rw [same]
    exact holds.holder j row ((moves.others j other row).mp here)

/-- A request goes on that has yet to take effect. -/
theorem Serialized.stay (holds : Serialized users requests init order s) (out : i ∉ order)
    (moves : Moves i phase s t) (same : t.rows.committed () = s.rows.committed ())
    (waits : Waits users (requests i) (s.rows.committed ()) (t.holds i) phase)
    (holder : ∀ row, t.rows.uncommitted () = some (i, row) →
      (requests i).alone users (s.rows.committed ()) = (.ok (), some row)) :
    Serialized users requests init order t where
  nodup := holds.nodup
  serial := by
    rw [same]
    refine holds.serial.mono fun j hj row row' before => ?_
    have other : j ≠ i := by
      rintro rfl
      exact out hj
    rw [moves.other other]
    exact before
  waits j out' := by
    rw [same]
    by_cases own : j = i
    · subst own
      rw [moves.own]
      exact waits
    · rw [moves.other own]
      exact (holds.waits j out').mono (fun _ there => there) (moves.holds own)
  holder j row here := by
    rw [same]
    by_cases own : j = i
    · subst own
      exact ⟨out, holder row here⟩
    · exact holds.holder j row ((moves.others j own row).mp here)

/-- A request takes effect. A new committed row is its own, so no other request holds one. -/
theorem Serialized.join (holds : Serialized users requests init order s) (out : i ∉ order)
    (moves : Moves i phase s t)
    (same : t.rows.committed () = s.rows.committed () ∨ s.holds i) (free : ¬ t.holds i)
    (effect : Effect users (requests i) phase (s.rows.committed ()) (t.rows.committed ())) :
    Serialized users requests init (order ++ [i]) t where
  nodup := List.nodup_append.mpr ⟨holds.nodup, List.nodup_singleton i, by
    rintro j hj k hk rfl
    exact out (List.mem_singleton.mp hk ▸ hj)⟩
  serial := by
    refine .snoc (holds.serial.mono fun j hj row row' before => ?_) ?_
    · have other : j ≠ i := by
        rintro rfl
        exact out hj
      rw [moves.other other]
      exact before
    · rw [moves.own]
      exact effect
  waits j out' := by
    rw [List.mem_append, List.mem_singleton, not_or] at out'
    rw [moves.other out'.2]
    refine (holds.waits j out'.1).mono (fun loaded there => ?_) (moves.holds out'.2)
    obtain ⟨g, here, found⟩ := there
    rw [here] at effect
    obtain ⟨g', here', same'⟩ := effect.id
    exact ⟨g', here', same'.trans found⟩
  holder j row here := by
    have other : j ≠ i := by
      rintro rfl
      exact free ⟨row, here⟩
    have before := (moves.others j other row).mp here
    have committed : t.rows.committed () = s.rows.committed () := by
      refine same.resolve_right ?_
      rintro ⟨row', own⟩
      have same' := before.symm.trans own
      rw [Option.some.injEq, Prod.mk.injEq] at same'
      exact other same'.1
    obtain ⟨out', alone⟩ := holds.holder j row before
    rw [committed, List.mem_append, List.mem_singleton, not_or]
    exact ⟨⟨out', other⟩, alone⟩

omit [DecidableEq ι] in
theorem Serialized.unplaced (holds : Serialized users requests init order s)
    (phase : s.phase i = .start ∨ ∃ log, s.phase i = .createLog log) : i ∉ order := by
  intro placed
  obtain ⟨row, row', effect⟩ := holds.serial.mem placed
  rcases phase with start | ⟨log, creates⟩
  · rw [start] at effect
    cases effect
  · rw [creates] at effect
    cases effect

/-- A request that raises anything but an application error takes effect there: it has none. -/
theorem Serialized.fail (holds : Serialized users requests init order s)
    (running : (s.phase i).ended = false) (text : Str) :
    ∃ order, Serialized users requests init order (s.fail i (.other text)) := by
  by_cases placed : i ∈ order
  · refine ⟨order, holds.keep placed moves_fail rfl fail_free fun row row' effect => ?_⟩
    rw [effect.idle running]
    exact .aborted
  · exact ⟨order ++ [i], holds.join placed moves_fail (.inl rfl) fail_free .aborted⟩

theorem Serialized.begin (holds : Serialized users requests init order s)
    (start : s.phase i = .start) (moved : s.begin i (requests i) = some t) :
    ∃ order, Serialized users requests init order t := by
  have out := holds.unplaced (.inl start)
  have waits := holds.waits i out
  rw [start] at waits
  have free : ¬ s.holds i := by
    cases waits
    assumption
  cases request : requests i with
  | ingestLog log readings =>
    rw [request] at moved
    obtain ⟨moves, same, version⟩ := moves_write moved
    refine ⟨order, holds.stay out moves same (.createsLog ⟨_, version⟩) fun row here => ?_⟩
    rw [version, Option.some.injEq, Prod.mk.injEq] at here
    rw [request, ← here.2]
    rfl
  | triage groupId change =>
    rw [request, GroupRun.begin] at moved
    cases load : s.load groupId with
    | none =>
      simp only [load, Option.some.injEq] at moved
      subst moved
      refine ⟨order ++ [i], holds.join out moves_fail (.inl rfl) fail_free (.answered ?_)⟩
      rw [request]
      exact alone_missing load
    | some loaded =>
      obtain ⟨here, found⟩ := Option.filter_eq_some_iff.mp load
      have found : loaded.id = groupId := of_decide_eq_true found
      subst found
      have there : StillThere loaded (s.rows.committed ()) := ⟨loaded, here, rfl⟩
      cases refused : change.refused with
      | some e =>
        simp only [load, refused, Option.some.injEq] at moved
        subst moved
        refine ⟨order ++ [i], holds.join out moves_fail (.inl rfl) fail_free (.answered ?_)⟩
        have checked : change.check users = some e := by simp [TriageEdit.check, refused]
        rw [request, here, alone_refused checked]
        change _ = (_, s.rows.committed ())
        rw [here]
        rfl
      | none =>
        cases assignee : change.assignee with
        | some user =>
          simp only [load, refused, assignee, Option.some.injEq] at moved
          subst moved
          by_cases idle : change.edit loaded = loaded
          · refine ⟨order ++ [i], holds.join out moves_goto (.inl rfl) free ?_⟩
            change Effect _ _ _ _ (s.rows.committed ())
            rw [here]
            exact .looksUp request refused assignee idle
          · exact ⟨order, holds.stay out moves_goto rfl
              (.looksUp request refused assignee idle there free)
              fun row own => absurd ⟨row, own⟩ free⟩
        | none =>
          simp only [load, refused, assignee, Option.some.injEq] at moved
          subst moved
          have checked : change.check users = none := by simp [TriageEdit.check, refused, assignee]
          by_cases idle : change.edit loaded = loaded
          · refine ⟨order ++ [i], holds.join out moves_goto (.inl rfl) free (.flushes idle ?_)⟩
            rw [request, here, alone_edits checked, idle]
          · exact ⟨order, holds.stay out moves_goto rfl
              (.flushes request checked idle there free)
              fun row own => absurd ⟨row, own⟩ free⟩

theorem Serialized.createLog (holds : Serialized users requests init order s) {log : Log}
    (creates : s.phase i = .createLog log) :
    Serialized users requests init order (s.goto i (.commit (.log log))) := by
  have out := holds.unplaced (.inr ⟨log, creates⟩)
  have waits := holds.waits i out
  rw [creates] at waits
  cases waits with
  | createsLog own =>
    exact holds.stay out moves_goto rfl (.commits own) fun row here => (holds.holder i row here).2

omit [DecidableEq ι] in
theorem Serialized.free (holds : Serialized users requests init order s) (placed : i ∈ order) :
    ¬ s.holds i := by
  rintro ⟨row, own⟩
  exact (holds.holder i row own).1 placed

theorem Serialized.selectAssignee (holds : Serialized users requests init order s)
    {change : TriageEdit} {assignee : Nat} {loaded : ErrorGroup}
    (selects : s.phase i = .selectAssignee change assignee loaded) :
    if users.any fun u => u.id = assignee then
      Serialized users requests init order (s.goto i (.flush change loaded))
    else ∃ order, Serialized users requests init order
      (s.fail i (.app (notFoundError "User"))) := by
  by_cases placed : i ∈ order
  · split
    all_goals rename_i known
    · refine holds.keep placed moves_goto rfl (holds.free placed) fun row row' effect => ?_
      rw [selects] at effect
      cases effect with
      | looksUp request refused looks idle =>
        refine .flushes idle ?_
        rw [request, alone_found rfl, check_assignee users refused looks, if_pos known, idle]
    · refine ⟨order, holds.keep placed moves_fail rfl fail_free fun row row' effect => ?_⟩
      rw [selects] at effect
      cases effect with
      | looksUp request refused looks _ =>
        refine .answered ?_
        rw [request, alone_found rfl, check_assignee users refused looks, if_neg known]
        rfl
  · have waits := holds.waits i placed
    rw [selects] at waits
    cases waits with
    | looksUp request refused looks changes there free =>
      split
      all_goals rename_i known
      · have checked := check_assignee users refused looks
        rw [if_pos known] at checked
        exact holds.stay placed moves_goto rfl (.flushes request checked changes there free)
          fun row own => absurd ⟨row, own⟩ free
      · refine ⟨order ++ [i], holds.join placed moves_fail (.inl rfl) fail_free (.answered ?_)⟩
        obtain ⟨g, here, found⟩ := there
        rw [request, here, alone_found found, check_assignee users refused looks, if_neg known]
        change _ = (_, s.rows.committed ())
        rw [here]
        rfl

theorem Serialized.flush (holds : Serialized users requests init order s)
    {change : TriageEdit} {loaded : ErrorGroup} (flushes : s.phase i = .flush change loaded)
    (moved : s.step users requests i = some t) :
    ∃ order, Serialized users requests init order t := by
  simp only [GroupRun.step, flushes] at moved
  by_cases placed : i ∈ order
  · obtain ⟨row, row', effect⟩ := holds.serial.mem placed
    rw [flushes] at effect
    cases effect with
    | flushes idle _ =>
      rw [if_pos idle, Option.some.injEq] at moved
      subst moved
      refine ⟨order, holds.keep placed moves_goto rfl (holds.free placed) fun row row' effect => ?_⟩
      rw [flushes] at effect
      cases effect with
      | flushes _ alone => exact .refreshes alone
  · have waits := holds.waits i placed
    rw [flushes] at waits
    cases waits with
    | flushes request checked changes there free =>
      obtain ⟨g, here, found⟩ := there
      rw [if_neg changes, here] at moved
      dsimp only at moved
      rw [flushGroup_edit changes] at moved
      obtain ⟨moves, same, version⟩ := moves_write moved
      refine ⟨order, holds.stay placed moves same (.refreshes ⟨_, version⟩) fun row own => ?_⟩
      rw [version, Option.some.injEq, Prod.mk.injEq] at own
      rw [request, here, alone_found found, checked, ← own.2]

theorem Serialized.refresh (holds : Serialized users requests init order s)
    (refreshes : s.phase i = .refresh) (row : ErrorGroup) :
    Serialized users requests init order (s.goto i (.commit (.group row))) := by
  by_cases placed : i ∈ order
  · refine holds.keep placed moves_goto rfl (holds.free placed) fun row row' effect => ?_
    rw [refreshes] at effect
    cases effect with
    | refreshes alone => exact .commits alone
  · have waits := holds.waits i placed
    rw [refreshes] at waits
    cases waits with
    | refreshes own =>
      exact holds.stay placed moves_goto rfl (.commits own) fun row own => (holds.holder i row own).2

/-- The state after a commit. -/
def GroupRun.committing (s : GroupRun ι) (i : ι) (answer : GroupAnswer) : GroupRun ι :=
  { s.goto i (.finished (.ok answer)) with rows := s.rows.commit i }

theorem Serialized.commit (holds : Serialized users requests init order s) {answer : GroupAnswer}
    (commits : s.phase i = .commit answer) :
    ∃ order, Serialized users requests init order (s.committing i answer) := by
  have moves : Moves i (.finished (.ok answer)) s (s.committing i answer) := by
    refine ⟨rfl, fun j other row => ?_⟩
    change (s.rows.commit i).uncommitted () = some (j, row) ↔ _
    rw [commit_uncommitted]
    exact and_iff_left other
  have free : ¬ (s.committing i answer).holds i := by
    rintro ⟨row, here⟩
    change (s.rows.commit i).uncommitted () = _ at here
    exact (commit_uncommitted.mp here).2 rfl
  by_cases placed : i ∈ order
  · have same : (s.committing i answer).rows.committed () = s.rows.committed () :=
      commit_other fun row own => (holds.holder i row own).1 placed
    refine ⟨order, holds.keep placed moves same free fun row row' effect => ?_⟩
    rw [commits] at effect
    cases effect with
    | commits alone => exact .answered alone
  · have waits := holds.waits i placed
    rw [commits] at waits
    cases waits with
    | commits own =>
      refine ⟨order ++ [i], holds.join placed moves (.inr own) free (.answered ?_)⟩
      obtain ⟨row, own⟩ := own
      have left : (s.committing i answer).rows.committed () = some row := commit_own own
      rw [(holds.holder i row own).2, left]
      rfl

theorem Serialized.next {op : GroupOp ι} (holds : Serialized users requests init order s)
    (moved : (groupMachine users requests).step s op = some t) :
    ∃ order, Serialized users requests init order t := by
  cases op with
  | abort i text =>
    change (if (s.phase i).ended then none else some (s.fail i (.other text))) = some t at moved
    split at moved
    · cases moved
    · rename_i running
      cases moved
      exact holds.fail (eq_false_of_ne_true running) text
  | step i =>
    change s.step users requests i = some t at moved
    have step := moved
    unfold GroupRun.step at step
    cases phase : s.phase i with
    | start =>
      simp only [phase] at step
      exact holds.begin phase step
    | createLog log =>
      simp only [phase, Option.some.injEq] at step
      exact step ▸ ⟨order, holds.createLog phase⟩
    | selectAssignee change assignee loaded =>
      have selected := holds.selectAssignee phase
      simp only [phase] at step
      split at step
      all_goals rename_i known; cases step
      · rw [if_pos known] at selected
        exact ⟨order, selected⟩
      · rw [if_neg known] at selected
        exact selected
    | flush change loaded => exact holds.flush phase moved
    | refresh =>
      simp only [phase] at step
      split at step <;> cases step
      · exact holds.fail (by rw [phase]; rfl) _
      · exact ⟨order, holds.refresh phase _⟩
    | commit answer =>
      simp only [phase, Option.some.injEq] at step
      exact step ▸ holds.commit phase
    | finished answer =>
      simp only [phase] at step
      cases step

/-- What any interleaving does to the row, its requests do one after the other. -/
theorem serialized_run {ops : List (GroupOp ι)}
    (ran : (groupMachine users requests).run { rows := groupRows init } ops = some s) :
    ∃ order, Serialized users requests init order s :=
  run_invariant (I := fun s => ∃ order, Serialized users requests init order s)
    (fun _ _ _ holds moved => holds.elim fun _ holds => holds.next moved)
    ⟨[], serialized_initial⟩ ran

end Invariant

section Serialization
variable [Platform] {key : GroupKey} {ι : Type} [DecidableEq ι] {users : List User}
  {requests : ι → GroupRequest key} {init : Option ErrorGroup} {s : GroupRun ι}
  {ops : List (GroupOp ι)}

/-- The requests ran one at a time, each from its start to its end. -/
abbrev RanInOrder (users : List User) (requests : ι → GroupRequest key) (init : Option ErrorGroup) :
    List ι → GroupRun ι → Prop :=
  OneAtATime (groupMachine users requests) GroupOp.request
    (fun s i => (s.phase i).ended = true) { rows := groupRows init }

/-- Between two requests that run one at a time. `s` is the state they explain. -/
structure Explains (s : GroupRun ι) (order : List ι) (row : Option ErrorGroup) (t : GroupRun ι) :
    Prop where
  committed : t.rows.committed () = row
  unlocked : t.rows.uncommitted () = none
  done : ∀ i ∈ order, (t.phase i).outcome = (s.phase i).outcome
  fresh : ∀ i, i ∉ order → t.phase i = .start

theorem Explains.next {order : List ι} {row row' : Option ErrorGroup} {t : GroupRun ι} {i : ι}
    (explains : Explains s order row t) (out : i ∉ order) (ended : (s.phase i).ended = true)
    (effect : Effect users (requests i) (s.phase i) row row') :
    ∃ ops u, (∀ op ∈ ops, op.request = i) ∧
      (groupMachine users requests).run t ops = some u ∧ (u.phase i).ended = true ∧
      Explains s (order ++ [i]) row' u := by
  have lone : Lone t.phase i .start row none t :=
    ⟨by rw [← explains.fresh i out, Function.update_eq_self], explains.committed,
      explains.unlocked⟩
  obtain ⟨outcome, had, ops, u, answer, own, ran, last, same⟩ := lone.effect effect ended
  refine ⟨ops, u, own, ran, by rw [last.own]; rfl, last.committed, last.uncommitted, ?_, ?_⟩
  · intro j hj
    by_cases here : j = i
    · subst here
      rw [last.own, had, ← same]
      rfl
    · rw [last.phase, Function.update_of_ne here]
      refine explains.done j ((List.mem_append.mp hj).resolve_right fun h => ?_)
      exact here (List.mem_singleton.mp h)
  · intro j hj
    rw [List.mem_append, List.mem_singleton, not_or] at hj
    rw [last.phase, Function.update_of_ne hj.2]
    exact explains.fresh j hj.1

/-- After any interleaving of ingestions and triage requests the row of the group is the one
that the requests that have ended leave when they run one at a time in some order, each with
the outcome it had; and its `occurrence_count` counts the ingestions that committed. -/
theorem ingestion_and_triage_serializable
    (ran : (groupMachine users requests).run { rows := groupRows init } ops = some s) :
    ∃ order t, order.Nodup ∧ (∀ i, i ∈ order ↔ (s.phase i).ended = true) ∧
      RanInOrder users requests init order t ∧
      t.rows.committed () = s.rows.committed () ∧
      (∀ i ∈ order, (t.phase i).outcome = (s.phase i).outcome) ∧
      occurrences (s.rows.committed ()) =
        occurrences init + order.countP fun i => (requests i).ingests && (s.phase i).committed := by
  obtain ⟨placed, holds⟩ := serialized_run ran
  -- a request without a change is placed before it ends
  let order := placed.filter fun i => (s.phase i).ended
  have ended : ∀ i ∈ order, (s.phase i).ended = true := fun i hi => (List.mem_filter.mp hi).2
  have nodup : order.Nodup := holds.nodup.filter _
  have serial : Serial (fun i => Effect users (requests i) (s.phase i)) init order
      (s.rows.committed ()) :=
    holds.serial.filter fun i _ running _ _ effect => effect.idle running
  have start : Explains s [] init ({ rows := groupRows init } : GroupRun ι) :=
    ⟨rfl, rfl, by simp, fun _ _ => rfl⟩
  obtain ⟨t, inOrder, explains⟩ := serial.oneAtATime start nodup
    fun before i row row' u out hi explains effect => explains.next out (ended i hi) effect
  refine ⟨order, t, nodup, fun i => ⟨ended i, fun done => ?_⟩, inOrder, explains.committed,
    explains.done, serial.countP fun i hi _ _ effect => effect.counts (ended i hi)⟩
  refine List.mem_filter.mpr ⟨?_, done⟩
  by_contra out
  have waits := holds.waits i out
  cases phase : s.phase i with
  | finished answer =>
    rw [phase] at waits
    cases waits
  | start | createLog | selectAssignee | flush | refresh | commit =>
    rw [phase] at done
    cases done

end Serialization

/-- The group of `minimalRequest`. -/
def racingKey : GroupKey := ("s".toList, .production, "s|m||".toList)

def racingLog : @GroupedLog asciiPlatform racingKey :=
  letI := asciiPlatform
  { payload := minimalRequest .error { clock := 0, utcoffset := none }
    timestamp := 0
    aware := by decide
    grouped := by decide
    keyed := by decide }

/-- Two ingestions, an edit of the status and an assignment. -/
inductive RacingRequest
  | firstLog
  | secondLog
  | resolve
  | assign
  deriving DecidableEq

def racingRequests : RacingRequest → @GroupRequest asciiPlatform racingKey :=
  letI := asciiPlatform
  fun
    | .firstLog => .ingestLog racingLog { groupId := 1, logId := 1, now := 0 }
    | .secondLog => .ingestLog racingLog { groupId := 2, logId := 2, now := 0 }
    | .resolve => .triage 1 (.updateStatus .resolved)
    | .assign => .triage 1 (.updateAssignment { id := 7, email := [], passwordHash := [] } (some 7))

/-- Both edits load the group before the second ingestion writes it. -/
def racingOps : List (GroupOp RacingRequest) :=
  [.step .firstLog, .step .firstLog, .step .firstLog, .step .resolve, .step .assign,
    .step .secondLog, .step .assign, .step .secondLog, .step .secondLog, .step .resolve,
    .step .resolve, .step .resolve, .step .assign, .step .assign, .step .assign]

abbrev racingMachine : Machine (GroupRun RacingRequest) (GroupOp RacingRequest) :=
  @groupMachine asciiPlatform racingKey _ _
    [{ id := 7, email := [], passwordHash := [] }] racingRequests

theorem ingestion_and_triage_serializable_racing : ∃ s : GroupRun RacingRequest,
    racingMachine.run { rows := groupRows none } racingOps = some s ∧
    (s.rows.committed ()).map (fun g => (g.occurrenceCount, g.status, g.assignedTo)) =
      some (2, .resolved, some 7) ∧
    ∃ order t, order.Nodup ∧ (∀ i, i ∈ order ↔ (s.phase i).ended = true) ∧
      @RanInOrder asciiPlatform racingKey _ _
        [{ id := 7, email := [], passwordHash := [] }] racingRequests none order t ∧
      t.rows.committed () = s.rows.committed () := by
  let _ := asciiPlatform
  obtain ⟨s, ran⟩ : ∃ s, racingMachine.run { rows := groupRows none } racingOps = some s :=
    Option.isSome_iff_exists.mp (by decide)
  have row : (racingMachine.run { rows := groupRows none } racingOps).map (fun s =>
      (s.rows.committed ()).map fun g => (g.occurrenceCount, g.status, g.assignedTo)) =
      some (some (2, .resolved, some 7)) := by decide
  rw [ran, Option.map_some, Option.some.injEq] at row
  obtain ⟨order, t, nodup, ended, inOrder, same, _⟩ := ingestion_and_triage_serializable ran
  exact ⟨s, ran, row, order, t, nodup, ended, inOrder, same⟩

end LogLens
