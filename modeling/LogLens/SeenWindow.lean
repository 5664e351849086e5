import LogLens.GroupBookkeeping
import Mathlib.Order.Bounds.Basic

/-! `first_seen` and `last_seen` of a group against the timestamps of its logs,
and the time filter that reads the two columns. -/

namespace LogLens
open LabelledMachine

/-- The arguments of `ErrorGroupRepository.build_query`. -/
structure GroupFilter where
  service : Option Str := none
  environment : Option LogEnvironment := none
  status : Option ErrorGroupStatus := none
  severity : Option ErrorGroupSeverity := none
  assignedTo : Option Nat := none
  text : Option Str := none
  fromTimestamp : Option Timestamp := none
  toTimestamp : Option Timestamp := none

/-- The WHERE clause on one row; `ilike` is the operator of the database. -/
def buildQuery [Platform] (ilike : Str → Str → Bool) (q : GroupFilter) (g : ErrorGroup) : Bool :=
  q.service.all (fun service => g.serviceName = service) &&
  q.environment.all (fun environment => g.environment = environment) &&
  q.status.all (fun status => g.status = status) &&
  q.severity.all (fun severity => g.severity = severity) &&
  q.assignedTo.all (fun assignedTo => g.assignedTo = some assignedTo) &&
  q.fromTimestamp.all (fun from' => from' ≤ g.lastSeen) &&
  q.toTimestamp.all (fun upTo => g.firstSeen ≤ upTo) &&
  q.text.all fun text =>
    let pattern := '%' :: strip text ++ ['%']
    ilike g.title pattern || ilike g.fingerprint pattern ||
      g.exceptionType.any (ilike · pattern) || ilike g.serviceName pattern

/-- The timestamps of the logs ever bound to a group. -/
def LogRun.seenTimes (s : LogRun) (groupId : Nat) : Set Timestamp :=
  {t | ∃ p ∈ s.boundTo groupId, p.2.timestamp = t}

/-- `first_seen` is the least of these timestamps and `last_seen` the greatest. -/
def SeenWindow (s : LogRun) : Prop :=
  ∀ g ∈ s.tables.errorGroups,
    IsLeast (s.seenTimes g.id) g.firstSeen ∧ IsGreatest (s.seenTimes g.id) g.lastSeen

/-- Some occurrence is not before `from'` and some is not after `upTo`. -/
def SpansInto (times : Set Timestamp) (from' upTo : Timestamp) : Prop :=
  (∃ t ∈ times, from' ≤ t) ∧ ∃ t ∈ times, t ≤ upTo

/-- The request an operation commits if its date is in range. -/
def LogOp.commits : LogOp → Option LogIngestRequest
  | .ingestLog _ fault commitError payload =>
    if passes fault persistSteps ∧ commitError = none then some payload else none
  | .persistItem _ fault commitError payload =>
    if passes fault (.releaseSavepoint :: persistSteps) ∧ commitError = none then some payload
    else none
  | _ => none

section Window
variable [Platform]

/-- A grouped log that is committed is no older than `last_seen` of its group. -/
def InOrder (s : LogRun) (op : LogOp) : Prop :=
  ∀ payload, op.commits = some payload → shouldGroup payload.logLevel = true →
    ∀ timestamp, asUtcAware payload.timestamp = some timestamp →
      ∀ g ∈ s.tables.errorGroups, g.key = payloadKey payload → g.lastSeen ≤ timestamp

def KeepsWindows (s : LogRun) (t : LogTables) : Prop :=
  ∃ f : ErrorGroup → ErrorGroup, t.errorGroups = s.tables.errorGroups.map f ∧
    ∀ g, (f g).id = g.id ∧ (f g).firstSeen = g.firstSeen ∧ (f g).lastSeen = g.lastSeen

omit [Platform] in
theorem keepsWindows_same {s : LogRun} {t : LogTables}
    (same : t.errorGroups = s.tables.errorGroups) : KeepsWindows s t :=
  ⟨id, by rw [List.map_id, same], fun _ => ⟨rfl, rfl, rfl⟩⟩

omit [Platform] in
theorem keepsWindows_triage {s : LogRun} {t : LogTables} (triage : Triage s.tables t) :
    KeepsWindows s t := by
  obtain ⟨f, rfl, edited⟩ := triage
  refine ⟨f, rfl, fun g => ?_⟩
  have columns := Triage.columns edited g
  exact ⟨columns.1, columns.2.2.2⟩

/-- What an operation does to the windows: it inserts the log of the request it
commits, or keeps them and had no grouped request with a date in range to commit. -/
inductive WindowEffect (s : LogRun) (op : LogOp) : LogRun → Prop
  | inserts {now : Timestamp} {payload : LogIngestRequest} {log : Log} {t : LogTables} :
    Persists now payload s.tables log t →
    (shouldGroup payload.logLevel = true → op.commits = some payload) →
    (∀ payload', op.commits = some payload' → payload' = payload) →
    WindowEffect s op ⟨t, (payload, log) :: s.ingested⟩
  | keeps {t : LogTables} : KeepsWindows s t →
    (∀ payload, op.commits = some payload → shouldGroup payload.logLevel = true →
      asUtcAware payload.timestamp = none) → WindowEffect s op ⟨t, s.ingested⟩

/-- An operation that ingests `payload` and commits it when `passed`. -/
theorem record_window {s : LogRun} {op : LogOp} {now : Timestamp} {payload : LogIngestRequest}
    {r : Except Raised Log × LogTables} {passed : Prop} [Decidable passed]
    (commits : op.commits = if passed then some payload else none)
    (result : (∃ log t, r = (.ok log, t) ∧ Persists now payload s.tables log t) ∨
      ∃ e t, r = (.error e, t) ∧ RolledBack s.tables t)
    (okIff : shouldGroup payload.logLevel = true →
      ((∃ log t, r = (.ok log, t)) ↔ asUtcAware payload.timestamp ≠ none ∧ passed)) :
    WindowEffect s op (s.record payload r) := by
  have only : ∀ payload', op.commits = some payload' → passed ∧ payload' = payload := by
    intro payload' own
    rw [commits, Option.ite_none_right_eq_some] at own
    exact ⟨own.1, (Option.some.inj own.2).symm⟩
  obtain ⟨log, t, rfl, persists⟩ | ⟨e, t, rfl, rolled⟩ := result
  · refine .inserts persists (fun level => ?_) fun payload' own => (only payload' own).2
    rw [commits, if_pos ((okIff level).mp ⟨log, t, rfl⟩).2]
  · refine .keeps (keepsWindows_same rolled.2.1) fun payload' own level => ?_
    obtain ⟨pass, rfl⟩ := only payload' own
    by_contra aware
    obtain ⟨log, t', ok⟩ := (okIff level).mpr ⟨aware, pass⟩
    cases ok

theorem apply_window (s : LogRun) (op : LogOp) : WindowEffect s op (s.apply op) := by
  cases op with
  | ingestLog now fault commitError payload =>
    exact record_window rfl (ingestLog_cases now fault commitError payload s.tables)
      (ingestLog_ok_iff now fault commitError s.tables)
  | persistItem now fault commitError payload =>
    exact record_window rfl (persistItem_cases now fault commitError payload s.tables)
      (persistItem_ok_iff now fault commitError s.tables)
  | deleteLog logId commitError =>
    have rows := deleteLog_rows logId commitError s.tables
    exact .keeps (keepsWindows_same rows.2.1) fun _ none => by cases none
  | cleanupBatch threshold batchSize commitError =>
    have rows := cleanupBatch_rows threshold batchSize commitError s.tables
    exact .keeps (keepsWindows_same rows.2.1) fun _ none => by cases none
  | updateStatus groupId status commitError =>
    have triage := updateStatus_triage groupId status commitError s.tables
    exact .keeps (keepsWindows_triage triage) fun _ none => by cases none
  | updateAssignment users currentUser groupId assignedTo commitError =>
    have triage := updateAssignment_triage users currentUser groupId assignedTo commitError s.tables
    exact .keeps (keepsWindows_triage triage) fun _ none => by cases none

omit [Platform] in
theorem seenTimes_cons (s : LogRun) (t : LogTables) (p : LogIngestRequest × Log) (groupId : Nat) :
    (⟨t, p :: s.ingested⟩ : LogRun).seenTimes groupId =
      if p.2.errorGroupId = some groupId then insert p.2.timestamp (s.seenTimes groupId)
      else s.seenTimes groupId := by
  unfold LogRun.seenTimes LogRun.boundTo
  rw [List.filter_cons]
  split
  · rename_i bound
    rw [if_pos (of_decide_eq_true bound)]
    ext x
    simp [eq_comm]
  · rename_i other
    rw [if_neg (fun bound => other (decide_eq_true bound))]

omit [Platform] in
theorem seenTimes_own {s : LogRun} {t : LogTables} {p : LogIngestRequest × Log} {groupId : Nat}
    (own : p.2.errorGroupId = some groupId) :
    (⟨t, p :: s.ingested⟩ : LogRun).seenTimes groupId =
      insert p.2.timestamp (s.seenTimes groupId) := by
  rw [seenTimes_cons, if_pos own]

omit [Platform] in
theorem seenTimes_other {s : LogRun} {t : LogTables} {p : LogIngestRequest × Log} {groupId : Nat}
    (other : p.2.errorGroupId ≠ some groupId) :
    (⟨t, p :: s.ingested⟩ : LogRun).seenTimes groupId = s.seenTimes groupId := by
  rw [seenTimes_cons, if_neg other]

omit [Platform] in
theorem seenWindow_keeps {s : LogRun} {t : LogTables} (window : SeenWindow s)
    (keeps : KeepsWindows s t) : SeenWindow ⟨t, s.ingested⟩ := by
  obtain ⟨f, groups, same⟩ := keeps
  intro h hh
  change h ∈ t.errorGroups at hh
  rw [groups] at hh
  obtain ⟨g, hg, rfl⟩ := List.mem_map.mp hh
  obtain ⟨id, first, last⟩ := same g
  rw [id, first, last]
  exact window g hg

omit [Platform] in
/-- A later timestamp keeps the least one and becomes the greatest; an earlier one
does not become the greatest. -/
theorem window_insert {times : Set Timestamp} {first last timestamp : Timestamp}
    (least : IsLeast times first) (greatest : IsGreatest times last) :
    (IsLeast (insert timestamp times) first ∧ IsGreatest (insert timestamp times) timestamp) ↔
      last ≤ timestamp := by
  constructor
  · intro window
    exact window.2.2 (Set.mem_insert_of_mem timestamp greatest.1)
  · intro later
    have early : first ≤ timestamp := (least.2 greatest.1).trans later
    refine ⟨⟨Set.mem_insert_of_mem _ least.1, ?_⟩, ⟨Set.mem_insert _ _, ?_⟩⟩
    · rintro t (rfl | old)
      · exact early
      · exact least.2 old
    · rintro t (rfl | old)
      · exact le_refl _
      · exact (greatest.2 old).trans later

/-- One step keeps every window exact when it is in order, and only then. -/
theorem seenWindow_apply {s : LogRun} (holds : Bookkeeping s) (window : SeenWindow s)
    (op : LogOp) : SeenWindow (s.apply op) ↔ InOrder s op := by
  have effect := apply_window s op
  generalize s.apply op = s' at effect ⊢
  cases effect with
  | @inserts now payload log t persists lands only =>
    cases persists with
    | @ungrouped timestamp _ aware level row =>
      subst row
      constructor
      · intro _ payload' commits grouped
        rw [only payload' commits, level] at grouped
        cases grouped
      · intro _ g hg
        rw [seenTimes_other (by simp [logRow])]
        exact window g hg
    | @conflict timestamp _ g aware level hg key row =>
      subst row
      have order : InOrder s op ↔ g.lastSeen ≤ timestamp := by
        constructor
        · intro inOrder
          exact inOrder payload (lands level) level timestamp aware g hg key
        · intro later payload' commits _ timestamp' aware' h hh sameKey
          cases only payload' commits
          rw [aware, Option.some.injEq] at aware'
          rw [holds.eq_of_key hh hg (sameKey.trans key.symm), ← aware']
          exact later
      rw [order, ← window_insert (window g hg).1 (window g hg).2]
      have own : (groupValues payload timestamp).mergeInto g =
          (groupValues payload timestamp).onConflict g := if_pos key
      constructor
      · intro after
        have row := after _ (List.mem_map_of_mem hg)
        rw [mergeInto_id, own, seenTimes_own (by rfl)] at row
        exact row
      · intro inserted h' hh'
        obtain ⟨h, hh, rfl⟩ := List.mem_map.mp hh'
        rw [mergeInto_id]
        by_cases same : h = g
        · rw [same, own, seenTimes_own (by rfl)]
          exact inserted
        · have otherKey : h.key ≠ (groupValues payload timestamp).key :=
            fun sameKey => same (holds.eq_of_key hh hg (sameKey.trans key.symm))
          have otherId : g.id ≠ h.id := fun sameId => same (holds.eq_of_id hh hg sameId.symm)
          rw [GroupValues.mergeInto, if_neg otherKey,
            seenTimes_other (by simpa [logRow] using otherId)]
          exact window h hh
    | @inserted timestamp _ aware level other row =>
      subst row
      refine iff_of_true ?_ ?_
      · intro g hg
        rw [List.mem_append, List.mem_singleton] at hg
        cases hg with
        | inl old =>
          have fresh := (holds.groupFresh g old).ne'
          rw [seenTimes_other (by simpa [logRow] using fresh)]
          exact window g old
        | inr new =>
          have unseen : s.seenTimes s.tables.nextGroupId = ∅ := by
            rw [LogRun.seenTimes, holds.boundTo_fresh (le_refl _)]
            simp
          have only : (insert timestamp ∅ : Set Timestamp) = {timestamp} :=
            LawfulSingleton.insert_empty_eq timestamp
          subst new
          rw [seenTimes_own (by rfl)]
          change IsLeast (insert timestamp (s.seenTimes s.tables.nextGroupId)) timestamp ∧
            IsGreatest (insert timestamp (s.seenTimes s.tables.nextGroupId)) timestamp
          rw [unseen, only]
          exact ⟨isLeast_singleton, isGreatest_singleton⟩
      · intro payload' commits _ timestamp' _ g hg sameKey
        cases only payload' commits
        exact absurd sameKey (other g hg)
  | keeps keeps late =>
    refine iff_of_true (seenWindow_keeps window keeps) ?_
    intro payload commits level timestamp aware
    rw [late payload commits level] at aware
    cases aware

/-- What the columns promise a reader: the window is exact and ordered, and the
time filter finds every group with occurrences into the interval. -/
def SeenPromise (s : LogRun) : Prop :=
  SeenWindow s ∧
  ∀ g ∈ s.tables.errorGroups, g.firstSeen ≤ g.lastSeen ∧
    ∀ ilike from' upTo, SpansInto (s.seenTimes g.id) from' upTo →
      buildQuery ilike { fromTimestamp := some from', toTimestamp := some upTo } g = true

theorem SeenWindow.promise {s : LogRun} (window : SeenWindow s) : SeenPromise s := by
  refine ⟨window, fun g hg => ⟨?_, ?_⟩⟩
  · exact (window g hg).1.2 (window g hg).2.1
  · rintro ilike from' upTo ⟨⟨t, seen, after⟩, u, seen', before⟩
    have last : from' ≤ g.lastSeen := after.trans ((window g hg).2.2 seen)
    have first : g.firstSeen ≤ upTo := ((window g hg).1.2 seen').trans before
    simp [buildQuery, first, last]

/-- The windows are exact in all states of a run exactly when its ingestions
commit the timestamps of each group in order. -/
theorem seen_window_iff_in_order (ops : List LogOp) :
    (∀ before after, ops = before ++ after → SeenPromise (before.foldl LogRun.apply {})) ↔
      Meets logMachine InOrder {} ops := by
  have keep : ∀ s t op, Bookkeeping s → logMachine.step s op = some t → Bookkeeping t := by
    intro s t op holds moved
    cases moved
    exact holds.effect (apply_effect s op)
  have step : ∀ s t op, Bookkeeping s → SeenPromise s → logMachine.step s op = some t →
      (SeenPromise t ↔ InOrder s op) := by
    intro s t op holds promise moved
    cases moved
    rw [← seenWindow_apply holds promise.1 op]
    exact ⟨And.left, SeenWindow.promise⟩
  have start : SeenWindow {} := by
    intro g hg
    cases hg
  have exact := prefixes_iff_meets keep step bookkeeping_initial start.promise (run_foldl {} ops)
  rw [← exact]
  constructor
  · intro all before after t split ran
    rw [run_foldl, Option.some.injEq] at ran
    exact ran ▸ all before after split
  · intro all before after split
    exact all before after _ split (run_foldl {} before)

end Window

/-- The later of two occurrences is ingested first. -/
def lateArrival : LogRun :=
  letI := asciiPlatform
  [.ingestLog 0 none none (minimalRequest .error { clock := 10, utcoffset := none }),
    .ingestLog 0 none none (minimalRequest .error { clock := 5, utcoffset := none })].foldl
    LogRun.apply {}

theorem seen_window_lateArrival :
    ¬ ∀ s, @Reach LogRun LogOp (@logMachine asciiPlatform) Always LogRun.Initial s →
      @SeenPromise asciiPlatform s := by
  let _ := asciiPlatform
  intro promised
  have window := (promised lateArrival (reach_foldl _ (.start rfl))).1
  have forgotten : ∃ g ∈ lateArrival.tables.errorGroups, ∃ p ∈ lateArrival.boundTo g.id,
      g.lastSeen < p.2.timestamp := by decide
  obtain ⟨g, hg, p, hp, later⟩ := forgotten
  have bound := (window g hg).2.2 ⟨p, hp, rfl⟩
  exact absurd bound (not_le.mpr later)

end LogLens
