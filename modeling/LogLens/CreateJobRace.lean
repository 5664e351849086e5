import LogLens.Jobs
import LogLens.Library.LabelledMachine
import Mathlib.Data.List.Nodup

/-! Concurrent calls of `create_job` at READ COMMITTED, statement by statement,
under the unique indexes of `background_jobs`. A statement sees the committed
rows; an INSERT waits for an uncommitted row its indexes keep it apart from.
Workers write committed rows meanwhile. -/

namespace LogLens
open LabelledMachine

/-- The statement a call executes next, or its answer with the rows that were
committed when it ended. -/
inductive CallPhase
  | selectByKey
  | selectByScope
  | insert
  | commit
  | finished (answer : Except Raised BackgroundJob) (seen : List BackgroundJob)

structure JobCalls (ι : Type) where
  jobs : List BackgroundJob := []
  uncommitted : List (ι × BackgroundJob) := []
  phase : ι → CallPhase := fun _ => .selectByKey

inductive CallOp (ι : Type)
  | call (i : ι)
  | write (row : BackgroundJob)

section Machine
variable {ι : Type} [DecidableEq ι] (jobId : ι → Str) (args : ι → CreateJobArgs)

def callRow (i : ι) : BackgroundJob := newJob (jobId i) (args i)

def JobCalls.goto (s : JobCalls ι) (i : ι) (phase : CallPhase) : JobCalls ι :=
  { s with phase := Function.update s.phase i phase }

def JobCalls.finish (s : JobCalls ι) (i : ι) (answer : Except Raised BackgroundJob) : JobCalls ι :=
  s.goto i (.finished answer s.jobs)

def JobCalls.call (s : JobCalls ι) (i : ι) : Option (JobCalls ι) :=
  match s.phase i with
  | .selectByKey =>
    match lookupKey (args i) s.jobs with
    | some answer => some (s.finish i answer)
    | none => some (s.goto i .selectByScope)
  | .selectByScope =>
    match lookupScope (args i) s.jobs with
    | some answer => some (s.finish i answer)
    | none => some (s.goto i .insert)
  | .insert =>
    if ¬ (args i).Storable then some (s.finish i (.error dbapiError))
    else if s.uncommitted.any fun p => (callRow jobId args i).conflicts p.2 then none
    else if s.jobs.any (callRow jobId args i).conflicts then
      some (s.finish i (.error integrityError))
    else some { s.goto i .commit with
      uncommitted := (i, callRow jobId args i) :: s.uncommitted }
  | .commit =>
    some { s.finish i (.ok (callRow jobId args i)) with
      jobs := s.jobs ++ [callRow jobId args i]
      uncommitted := s.uncommitted.filter fun p => p.1 ≠ i }
  | .finished .. => none

def JobCalls.rows (s : JobCalls ι) : List BackgroundJob := s.jobs ++ s.uncommitted.map (·.2)

/-- Rows that differ in what workers write at most. -/
def SameCall (a b : BackgroundJob) : Prop :=
  a.id = b.id ∧ a.jobType = b.jobType ∧ a.idempotencyKey = b.idempotencyKey ∧
    a.scopeKey = b.scopeKey ∧ a.payload.requestHash = b.payload.requestHash ∧
    a.payload.logs = b.payload.logs

instance (a b : BackgroundJob) : Decidable (SameCall a b) := by
  unfold SameCall
  infer_instance

/-- UPDATE of one row by its id. -/
def writeRow (written row : BackgroundJob) : BackgroundJob :=
  if row.id = written.id then written else row

/-- A worker writes a row. The indexes refuse one that clashes with another row. -/
def JobCalls.write (s : JobCalls ι) (written : BackgroundJob) : Option (JobCalls ι) :=
  if ∃ row ∈ s.jobs, SameCall written row then
    if s.rows.any fun row => row.id ≠ written.id && written.conflicts row then none
    else some { s with jobs := s.jobs.map (writeRow written) }
  else none

def callMachine : Machine (JobCalls ι) (CallOp ι) where
  step s
    | .call i => s.call jobId args i
    | .write row => s.write row

/-- The database takes what the next statement of a call binds. -/
def CreateJobArgs.Sends (args : CreateJobArgs) : CallPhase → Prop
  | .selectByKey => ∀ key ∈ args.idempotencyKey, NulFree key
  | .selectByScope => ∀ scope ∈ args.scopeKey, NulFree scope
  | .insert => args.Storable
  | .commit | .finished .. => True

instance (args : CreateJobArgs) : (phase : CallPhase) → Decidable (args.Sends phase)
  | .selectByKey => inferInstanceAs (Decidable (∀ key ∈ args.idempotencyKey, NulFree key))
  | .selectByScope => inferInstanceAs (Decidable (∀ scope ∈ args.scopeKey, NulFree scope))
  | .insert => inferInstanceAs (Decidable args.Storable)
  | .commit | .finished .. => isTrue trivial

def Sendable (s : JobCalls ι) : CallOp ι → Prop
  | .call i => (args i).Sends (s.phase i)
  | .write _ => True

/-- A call that reaches its INSERT meets no committed row of its key and no
committed active row of its scope. -/
def Unraced (s : JobCalls ι) : CallOp ι → Prop
  | .call i => s.phase i = .insert →
    (∀ key ∈ (args i).idempotencyKey, ∀ row ∈ s.jobs, row.hasKey (args i).jobType key = false) ∧
    ∀ scope ∈ (args i).scopeKey, ∀ row ∈ s.jobs, row.activeIn (args i).jobType scope = false
  | .write _ => True

instance : (phase : CallPhase) → Decidable (phase = .insert)
  | .insert => isTrue rfl
  | .selectByKey | .selectByScope | .commit | .finished .. => isFalse (by rintro ⟨⟩)

instance (s : JobCalls ι) : (op : CallOp ι) → Decidable (Sendable args s op)
  | .call i => inferInstanceAs (Decidable ((args i).Sends (s.phase i)))
  | .write _ => isTrue trivial

instance (s : JobCalls ι) : (op : CallOp ι) → Decidable (Unraced args s op)
  | .call i => inferInstanceAs (Decidable (s.phase i = .insert → _))
  | .write _ => isTrue trivial

end Machine

section Answers
variable {ι : Type} (jobId : ι → Str) (args : ι → CreateJobArgs)

theorem SameCall.refl (a : BackgroundJob) : SameCall a a := ⟨rfl, rfl, rfl, rfl, rfl, rfl⟩

theorem SameCall.trans {a b c : BackgroundJob} (h : SameCall a b) (h' : SameCall b c) :
    SameCall a c :=
  ⟨h.1.trans h'.1, h.2.1.trans h'.2.1, h.2.2.1.trans h'.2.2.1, h.2.2.2.1.trans h'.2.2.2.1,
    h.2.2.2.2.1.trans h'.2.2.2.2.1, h.2.2.2.2.2.trans h'.2.2.2.2.2⟩

theorem SameCall.hasKey {a b : BackgroundJob} (h : SameCall a b) {jobType : BackgroundJobType}
    {key : Str} (keyed : b.hasKey jobType key = true) : a.hasKey jobType key = true := by
  rw [hasKey_iff] at keyed ⊢
  rwa [h.2.1, h.2.2.1]

/-- Where the answer of a call comes from. `seen` are the rows committed when it
ended, `jobs` the ones committed now. -/
inductive Answered (jobs : List BackgroundJob) (i : ι) :
    Except Raised BackgroundJob → List BackgroundJob → Prop
  | created {seen : List BackgroundJob} {row : BackgroundJob} :
    row ∈ jobs → SameCall row (callRow jobId args i) →
    (∀ other ∈ seen, (callRow jobId args i).conflicts other = false) →
    Answered jobs i (.ok (callRow jobId args i)) seen
  | replayed {seen : List BackgroundJob} {key : Str} {row existing : BackgroundJob} :
    (args i).idempotencyKey = some key → existing ∈ seen →
    existing.hasKey (args i).jobType key = true → row ∈ jobs → SameCall row existing →
    Answered jobs i (replayJob (args i) existing) seen
  | refused {seen : List BackgroundJob} {scope : Str} {existing : BackgroundJob} :
    (args i).scopeKey = some scope → existing ∈ seen →
    existing.activeIn (args i).jobType scope = true →
    Answered jobs i (.error (.app scopeConflict)) seen
  | broken {seen : List BackgroundJob} : Answered jobs i (.error integrityError) seen
  | rejected {seen : List BackgroundJob} : ¬ (args i).Storable →
    Answered jobs i (.error dbapiError) seen

variable {jobId args}

theorem Answered.mono {jobs jobs' : List BackgroundJob} {i : ι}
    {answer : Except Raised BackgroundJob} {seen : List BackgroundJob}
    (answered : Answered jobId args jobs i answer seen)
    (kept : ∀ row ∈ jobs, ∃ row' ∈ jobs', SameCall row' row) :
    Answered jobId args jobs' i answer seen := by
  cases answered with
  | created here same apart =>
    obtain ⟨row', here', same'⟩ := kept _ here
    exact .created here' (same'.trans same) apart
  | replayed own before keyed here same =>
    obtain ⟨row', here', same'⟩ := kept _ here
    exact .replayed own before keyed here' (same'.trans same)
  | refused own before active => exact .refused own before active
  | broken => exact .broken
  | rejected unstorable => exact .rejected unstorable

theorem storable_sends {a : CreateJobArgs} (storable : a.Storable) (phase : CallPhase) :
    a.Sends phase := by
  obtain ⟨-, -, -, keys, scopes⟩ := id storable
  cases phase with
  | selectByKey => exact fun key own => (keys key own).1
  | selectByScope => exact fun scope own => (scopes scope own).1
  | insert => exact storable
  | commit | finished => trivial

end Answers

section Invariant
variable {ι : Type} {jobId : ι → Str} {args : ι → CreateJobArgs}

structure CallsInvariant (jobId : ι → Str) (args : ι → CreateJobArgs) (s : JobCalls ι) :
    Prop where
  ids : (s.jobs.map (·.id)).Nodup
  apart : ∀ a ∈ s.rows, ∀ b ∈ s.rows, a.id ≠ b.id → a.conflicts b = false
  waiting : ∀ p ∈ s.uncommitted, s.phase p.1 = .commit ∧ p.2 = callRow jobId args p.1
  inserted : ∀ i, s.phase i = .commit → (i, callRow jobId args i) ∈ s.uncommitted
  committed : ∀ row ∈ s.jobs, ∃ i answer seen, s.phase i = .finished answer seen ∧
    SameCall row (callRow jobId args i)
  answered : ∀ i answer seen, s.phase i = .finished answer seen →
    Answered jobId args s.jobs i answer seen

theorem callsInvariant_initial : CallsInvariant jobId args ({} : JobCalls ι) where
  ids := List.nodup_nil
  apart := by simp [JobCalls.rows]
  waiting := by simp
  inserted := by simp
  committed := by simp
  answered := by simp

/-- No committed row is of a call that has not finished. -/
theorem CallsInvariant.unfinished {s : JobCalls ι} (holds : CallsInvariant jobId args s)
    (fresh : Function.Injective jobId) {i : ι}
    (running : ∀ answer seen, s.phase i ≠ .finished answer seen) {row : BackgroundJob}
    (hr : row ∈ s.jobs) : row.id ≠ jobId i := by
  obtain ⟨k, answer, seen, done, same⟩ := holds.committed row hr
  intro sameId
  cases fresh (same.1.symm.trans sameId)
  exact running answer seen done

/-- A call that is answered with a job is answered with a committed one. -/
theorem CallsInvariant.answered_row {s : JobCalls ι} (holds : CallsInvariant jobId args s) {i : ι}
    {job : BackgroundJob} {seen : List BackgroundJob}
    (done : s.phase i = .finished (.ok job) seen) :
    ∃ row ∈ s.jobs, row.id = job.id ∧ row.jobType = (args i).jobType := by
  have answered := holds.answered i _ seen done
  generalize h : (Except.ok job : Except Raised BackgroundJob) = answer at answered
  cases answered with
  | created here same =>
    cases h
    exact ⟨_, here, same.1, same.2.1⟩
  | @replayed _ _ row existing own _ keyed here same =>
    obtain ⟨replayed, -⟩ | ⟨replayed, -⟩ := replayJob_cases (args i) existing
    · rw [replayed] at h
      cases h
      exact ⟨row, here, same.1, same.2.1.trans (hasKey_iff.mp keyed).1⟩
    · rw [replayed] at h
      cases h
  | refused => cases h
  | broken => cases h
  | rejected => cases h

variable [DecidableEq ι]

/-- A call that is neither inserted nor finished moves on. -/
theorem CallsInvariant.move {s : JobCalls ι} (holds : CallsInvariant jobId args s) {i : ι}
    (notCommit : s.phase i ≠ .commit)
    (notFinished : ∀ answer seen, s.phase i ≠ .finished answer seen)
    {phase : CallPhase} (next : phase ≠ .commit)
    (answered : ∀ answer seen, phase = .finished answer seen →
      Answered jobId args s.jobs i answer seen) :
    CallsInvariant jobId args (s.goto i phase) where
  ids := holds.ids
  apart := holds.apart
  waiting p hp := by
    have old := holds.waiting p hp
    have other : p.1 ≠ i := by
      rintro rfl
      exact notCommit old.1
    exact ⟨(Function.update_of_ne other _ _).trans old.1, old.2⟩
  inserted k atCommit := by
    by_cases same : k = i
    · subst same
      simp only [JobCalls.goto, Function.update_self] at atCommit
      exact absurd atCommit next
    · simp only [JobCalls.goto, Function.update_of_ne same] at atCommit
      exact holds.inserted k atCommit
  committed row hr := by
    obtain ⟨k, answer, seen, done, same⟩ := holds.committed row hr
    have other : k ≠ i := by
      rintro rfl
      exact notFinished answer seen done
    exact ⟨k, answer, seen, (Function.update_of_ne other _ _).trans done, same⟩
  answered k answer seen done := by
    by_cases same : k = i
    · subst same
      simp only [JobCalls.goto, Function.update_self] at done
      exact answered answer seen done
    · simp only [JobCalls.goto, Function.update_of_ne same] at done
      exact holds.answered k answer seen done

theorem CallsInvariant.enter {s : JobCalls ι} (holds : CallsInvariant jobId args s) {i : ι}
    (atInsert : s.phase i = .insert)
    (free : ∀ p ∈ s.uncommitted, (callRow jobId args i).conflicts p.2 = false)
    (unused : ∀ row ∈ s.jobs, (callRow jobId args i).conflicts row = false) :
    CallsInvariant jobId args { s.goto i .commit with
      uncommitted := (i, callRow jobId args i) :: s.uncommitted } where
  ids := holds.ids
  apart := by
    have own : ∀ b ∈ s.rows, (callRow jobId args i).conflicts b = false := by
      intro b hb
      rw [JobCalls.rows, List.mem_append, List.mem_map] at hb
      cases hb with
      | inl committed => exact unused b committed
      | inr waiting =>
        obtain ⟨p, hp, rfl⟩ := waiting
        exact free p hp
    have split : ∀ a ∈ s.jobs ++ (callRow jobId args i :: s.uncommitted.map (·.2)),
        a = callRow jobId args i ∨ a ∈ s.rows := by
      intro a ha
      rw [List.mem_append, List.mem_cons] at ha
      rw [JobCalls.rows, List.mem_append]
      tauto
    intro a ha b hb other
    obtain rfl | oldA := split a ha
    · obtain rfl | oldB := split b hb
      · exact absurd rfl other
      · exact own b oldB
    · obtain rfl | oldB := split b hb
      · have apart := own a oldA
        cases clash : a.conflicts (callRow jobId args i) with
        | false => rfl
        | true => rw [conflicts_symm clash] at apart; cases apart
      · exact holds.apart a oldA b oldB other
  waiting := by
    rw [List.forall_mem_cons]
    refine ⟨⟨Function.update_self _ _ _, rfl⟩, fun p hp => ?_⟩
    have old := holds.waiting p hp
    have other : p.1 ≠ i := by
      rintro rfl
      rw [atInsert] at old
      cases old.1
    exact ⟨(Function.update_of_ne other _ _).trans old.1, old.2⟩
  inserted k atCommit := by
    by_cases same : k = i
    · subst same
      exact List.mem_cons_self
    · simp only [JobCalls.goto, Function.update_of_ne same] at atCommit
      exact List.mem_cons_of_mem _ (holds.inserted k atCommit)
  committed row hr := by
    obtain ⟨k, answer, seen, done, same⟩ := holds.committed row hr
    have other : k ≠ i := by
      rintro rfl
      rw [atInsert] at done
      cases done
    exact ⟨k, answer, seen, (Function.update_of_ne other _ _).trans done, same⟩
  answered k answer seen done := by
    have other : k ≠ i := by
      rintro rfl
      simp only [JobCalls.goto, Function.update_self] at done
      cases done
    simp only [JobCalls.goto, Function.update_of_ne other] at done
    exact holds.answered k answer seen done

theorem CallsInvariant.publish {s : JobCalls ι} (holds : CallsInvariant jobId args s)
    (fresh : Function.Injective jobId) {i : ι} (atCommit : s.phase i = .commit) :
    CallsInvariant jobId args { s.finish i (.ok (callRow jobId args i)) with
      jobs := s.jobs ++ [callRow jobId args i]
      uncommitted := s.uncommitted.filter fun p => p.1 ≠ i } where
  ids := by
    rw [List.map_append, List.nodup_append]
    refine ⟨holds.ids, List.nodup_singleton _, ?_⟩
    intro id hid own hown
    obtain ⟨row, hr, rfl⟩ := List.mem_map.mp hid
    rw [List.map_singleton, List.mem_singleton] at hown
    rw [hown]
    exact holds.unfinished fresh (fun answer seen done => by rw [atCommit] at done; cases done) hr
  apart := by
    have old : ∀ a ∈ (s.jobs ++ [callRow jobId args i]) ++
        (s.uncommitted.filter fun p => p.1 ≠ i).map (·.2), a ∈ s.rows := by
      intro a ha
      rw [List.mem_append, List.mem_append, List.mem_singleton] at ha
      rw [JobCalls.rows, List.mem_append]
      obtain (committed | rfl) | waiting := ha
      · exact .inl committed
      · exact .inr (List.mem_map.mpr ⟨_, holds.inserted i atCommit, rfl⟩)
      · obtain ⟨p, hp, rfl⟩ := List.mem_map.mp waiting
        exact .inr (List.mem_map_of_mem (List.mem_filter.mp hp).1)
    intro a ha b hb other
    exact holds.apart a (old a ha) b (old b hb) other
  waiting p hp := by
    rw [List.mem_filter] at hp
    have other : p.1 ≠ i := by simpa using hp.2
    have before := holds.waiting p hp.1
    exact ⟨(Function.update_of_ne other _ _).trans before.1, before.2⟩
  inserted k waiting := by
    have other : k ≠ i := by
      rintro rfl
      simp only [JobCalls.finish, JobCalls.goto, Function.update_self] at waiting
      cases waiting
    simp only [JobCalls.finish, JobCalls.goto, Function.update_of_ne other] at waiting
    exact List.mem_filter.mpr ⟨holds.inserted k waiting, by simpa using other⟩
  committed row hr := by
    rw [List.mem_append, List.mem_singleton] at hr
    obtain old | rfl := hr
    · obtain ⟨k, answer, seen, done, same⟩ := holds.committed row old
      have other : k ≠ i := by
        rintro rfl
        rw [atCommit] at done
        cases done
      exact ⟨k, answer, seen, (Function.update_of_ne other _ _).trans done, same⟩
    · exact ⟨i, _, _, Function.update_self _ _ _, SameCall.refl _⟩
  answered k answer seen done := by
    by_cases same : k = i
    · subst same
      simp only [JobCalls.finish, JobCalls.goto, Function.update_self] at done
      cases done
      refine .created (List.mem_append_right _ (List.mem_singleton_self _)) (SameCall.refl _) ?_
      intro other ho
      refine holds.apart _ ?_ other (List.mem_append_left _ ho) ?_
      · exact List.mem_append_right _ (List.mem_map.mpr ⟨_, holds.inserted k atCommit, rfl⟩)
      · have distinct := holds.unfinished fresh
          (fun answer seen done => by rw [atCommit] at done; cases done) ho
        exact distinct.symm
    · simp only [JobCalls.finish, JobCalls.goto, Function.update_of_ne same] at done
      exact (holds.answered k answer seen done).mono fun row hr =>
        ⟨row, List.mem_append_left _ hr, SameCall.refl row⟩

/-- An error of the database. -/
def DatabaseError (answer : Except Raised BackgroundJob) : Prop :=
  answer = .error integrityError ∨ answer = .error dbapiError

/-- What one step of a call does. -/
inductive CallEffect (jobId : ι → Str) (args : ι → CreateJobArgs) (s : JobCalls ι) (i : ι) :
    JobCalls ι → Prop
  | answers {answer : Except Raised BackgroundJob} :
    s.phase i = .selectByKey ∨ s.phase i = .selectByScope →
    Answered jobId args s.jobs i answer s.jobs → ¬ DatabaseError answer →
    (args i).Sends (s.phase i) → CallEffect jobId args s i (s.finish i answer)
  | passes {phase : CallPhase} : s.phase i = .selectByKey ∨ s.phase i = .selectByScope →
    phase = .selectByScope ∨ phase = .insert → (args i).Sends (s.phase i) →
    CallEffect jobId args s i (s.goto i phase)
  | rejects : ¬ (args i).Sends (s.phase i) →
    CallEffect jobId args s i (s.finish i (.error dbapiError))
  | clashes : s.phase i = .insert → (∃ row ∈ s.jobs, (callRow jobId args i).conflicts row = true) →
    CallEffect jobId args s i (s.finish i (.error integrityError))
  | inserts : s.phase i = .insert → (args i).Storable →
    (∀ p ∈ s.uncommitted, (callRow jobId args i).conflicts p.2 = false) →
    (∀ row ∈ s.jobs, (callRow jobId args i).conflicts row = false) →
    CallEffect jobId args s i { s.goto i .commit with
      uncommitted := (i, callRow jobId args i) :: s.uncommitted }
  | publishes : s.phase i = .commit →
    CallEffect jobId args s i { s.finish i (.ok (callRow jobId args i)) with
      jobs := s.jobs ++ [callRow jobId args i]
      uncommitted := s.uncommitted.filter fun p => p.1 ≠ i }

/-- A call leaves the committed rows, or adds its own. -/
theorem call_jobs {s t : JobCalls ι} {i : ι} (effect : CallEffect jobId args s i t) :
    t.jobs = s.jobs ∨ t.jobs = s.jobs ++ [callRow jobId args i] := by
  cases effect with
  | answers | passes | rejects | clashes | inserts => exact .inl rfl
  | publishes => exact .inr rfl

/-- The phase of a call changes in its own steps only, which it takes before it ends. -/
theorem call_phase {s t : JobCalls ι} {i k : ι} (effect : CallEffect jobId args s i t)
    (done : k ≠ i ∨ ∃ answer seen, s.phase k = .finished answer seen) :
    t.phase k = s.phase k := by
  have other : k ≠ i := by
    obtain other | ⟨answer, seen, ended⟩ := done
    · exact other
    · rintro rfl
      cases effect with
      | answers phase | passes phase =>
        rw [ended] at phase
        obtain ⟨⟨⟩⟩ | ⟨⟨⟩⟩ := phase
      | rejects refused =>
        rw [ended] at refused
        exact refused trivial
      | clashes phase | inserts phase | publishes phase =>
        rw [ended] at phase
        cases phase
  cases effect with
  | answers | passes | rejects | clashes | inserts | publishes =>
    exact Function.update_of_ne other _ _

theorem replayJob_answer (a : CreateJobArgs) (existing : BackgroundJob) :
    ¬ DatabaseError (replayJob a existing) := by
  obtain ⟨replayed, -⟩ | ⟨replayed, -⟩ := replayJob_cases a existing <;>
    · rw [replayed]
      rintro (⟨⟨⟩⟩ | ⟨⟨⟩⟩)

theorem call_effect {s t : JobCalls ι} {i : ι} (moved : s.call jobId args i = some t) :
    CallEffect jobId args s i t := by
  unfold JobCalls.call at moved
  cases phase : s.phase i with
  | selectByKey =>
    have sends : (args i).Sends (s.phase i) ↔ ∀ key ∈ (args i).idempotencyKey, NulFree key := by
      rw [phase]
      rfl
    cases found : lookupKey (args i) s.jobs with
    | none =>
      simp only [phase, found, Option.some.injEq] at moved
      exact moved ▸ .passes (.inl phase) (.inl rfl) (sends.mpr (lookupKey_none found))
    | some answer =>
      simp only [phase, found, Option.some.injEq] at moved
      obtain ⟨key, own, ⟨free, existing, here, keyed, rfl⟩ | ⟨refused, rfl⟩⟩ := lookupKey_some found
      · refine moved ▸ .answers (.inl phase) (.replayed own here keyed here (SameCall.refl _))
          (replayJob_answer _ _) (sends.mpr fun key' own' => ?_)
        cases own.symm.trans own'
        exact free
      · exact moved ▸ .rejects fun sent => refused (sends.mp sent key own)
  | selectByScope =>
    have sends : (args i).Sends (s.phase i) ↔ ∀ scope ∈ (args i).scopeKey, NulFree scope := by
      rw [phase]
      rfl
    cases found : lookupScope (args i) s.jobs with
    | none =>
      simp only [phase, found, Option.some.injEq] at moved
      exact moved ▸ .passes (.inr phase) (.inr rfl) (sends.mpr (lookupScope_none found))
    | some answer =>
      simp only [phase, found, Option.some.injEq] at moved
      obtain ⟨scope, own, ⟨free, existing, here, active, rfl⟩ | ⟨refused, rfl⟩⟩ :=
        lookupScope_some found
      · refine moved ▸ .answers (.inr phase) (.refused own here active)
          (by rintro (⟨⟨⟩⟩ | ⟨⟨⟩⟩)) (sends.mpr fun scope' own' => ?_)
        cases own.symm.trans own'
        exact free
      · exact moved ▸ .rejects fun sent => refused (sends.mp sent scope own)
  | insert =>
    simp only [phase] at moved
    split at moved
    · rename_i unstorable
      cases moved
      exact .rejects (by rw [phase]; exact unstorable)
    · rename_i storable
      split at moved
      · cases moved
      · rename_i free
        split at moved
        · rename_i clash
          cases moved
          exact .clashes phase (by simpa using clash)
        · rename_i unused
          cases moved
          exact .inserts phase (not_not.mp storable) (by simpa using free) (by simpa using unused)
  | commit =>
    simp only [phase, Option.some.injEq] at moved
    exact moved ▸ .publishes phase
  | finished => simp [phase] at moved

theorem CallsInvariant.call {s t : JobCalls ι} (holds : CallsInvariant jobId args s)
    (fresh : Function.Injective jobId) {i : ι} (effect : CallEffect jobId args s i t) :
    CallsInvariant jobId args t := by
  cases effect with
  | answers phase answered =>
    refine holds.move ?_ ?_ (by rintro ⟨⟩) ?_
    · rintro atCommit
      rw [atCommit] at phase
      obtain ⟨⟨⟩⟩ | ⟨⟨⟩⟩ := phase
    · rintro answer seen done
      rw [done] at phase
      obtain ⟨⟨⟩⟩ | ⟨⟨⟩⟩ := phase
    · rintro _ _ ⟨⟩
      exact answered
  | passes phase next =>
    refine holds.move ?_ ?_ ?_ ?_
    · rintro atCommit
      rw [atCommit] at phase
      obtain ⟨⟨⟩⟩ | ⟨⟨⟩⟩ := phase
    · rintro answer seen done
      rw [done] at phase
      obtain ⟨⟨⟩⟩ | ⟨⟨⟩⟩ := phase
    · rintro rfl
      obtain ⟨⟨⟩⟩ | ⟨⟨⟩⟩ := next
    · rintro _ _ rfl
      obtain ⟨⟨⟩⟩ | ⟨⟨⟩⟩ := next
  | rejects refused =>
    refine holds.move ?_ ?_ (by rintro ⟨⟩) ?_
    · rintro atCommit
      exact refused (by rw [atCommit]; trivial)
    · rintro answer seen done
      exact refused (by rw [done]; trivial)
    · rintro _ _ ⟨⟩
      exact .rejected fun storable => refused (storable_sends storable _)
  | clashes phase _ =>
    refine holds.move (by rw [phase]; rintro ⟨⟩) (by rw [phase]; rintro _ _ ⟨⟩) (by rintro ⟨⟩) ?_
    rintro _ _ ⟨⟩
    exact .broken
  | inserts phase _ free unused => exact holds.enter phase free unused
  | publishes phase => exact holds.publish fresh phase

omit [DecidableEq ι] in
/-- The rows after a worker's write are the old ones, or the written one in place of its own. -/
theorem write_rows {s t : JobCalls ι} {written : BackgroundJob} (moved : s.write written = some t) :
    t = { s with jobs := s.jobs.map (writeRow written) } ∧
      (∃ row ∈ s.jobs, SameCall written row) ∧
      ∀ row ∈ s.rows, row.id ≠ written.id → written.conflicts row = false := by
  unfold JobCalls.write at moved
  split at moved
  · rename_i own
    split at moved
    · cases moved
    · rename_i guard
      cases moved
      exact ⟨rfl, own, by simpa using guard⟩
  · cases moved

omit [DecidableEq ι] in
theorem CallsInvariant.write {s t : JobCalls ι} (holds : CallsInvariant jobId args s)
    {written : BackgroundJob} (moved : s.write written = some t) : CallsInvariant jobId args t := by
  obtain ⟨rfl, ⟨own, hown, same⟩, allowed⟩ := write_rows moved
  have sameRow : ∀ row ∈ s.jobs, SameCall (writeRow written row) row := by
    intro row hr
    unfold writeRow
    split
    · rename_i sameId
      have here : own = row :=
        List.inj_on_of_nodup_map holds.ids hown hr (same.1.symm.trans sameId.symm)
      exact here ▸ same
    · exact SameCall.refl row
  have kept : ∀ row ∈ s.jobs, ∃ row' ∈ s.jobs.map (writeRow written), SameCall row' row :=
    fun row hr => ⟨_, List.mem_map_of_mem hr, sameRow row hr⟩
  refine ⟨?_, ?_, holds.waiting, holds.inserted, ?_, ?_⟩
  · rw [List.map_map]
    have ids := List.map_congr_left fun row hr => (sameRow row hr).1
    exact ids ▸ holds.ids
  · have origin : ∀ a ∈ s.jobs.map (writeRow written) ++ s.uncommitted.map (·.2),
        a ∈ s.rows ∨ a = written := by
      intro a ha
      rw [List.mem_append, List.mem_map] at ha
      obtain ⟨row, hr, rfl⟩ | waiting := ha
      · unfold writeRow
        split
        · exact .inr rfl
        · exact .inl (List.mem_append_left _ hr)
      · exact .inl (List.mem_append_right _ waiting)
    intro a ha b hb other
    obtain oldA | rfl := origin a ha
    · obtain oldB | rfl := origin b hb
      · exact holds.apart a oldA b oldB other
      · have apart := allowed a oldA other
        cases clash : a.conflicts b with
        | false => rfl
        | true => rw [conflicts_symm clash] at apart; cases apart
    · obtain oldB | rfl := origin b hb
      · exact allowed b oldB (Ne.symm other)
      · exact absurd rfl other
  · intro row' hr'
    obtain ⟨row, hr, rfl⟩ := List.mem_map.mp hr'
    obtain ⟨k, answer, seen, done, call⟩ := holds.committed row hr
    exact ⟨k, answer, seen, done, (sameRow row hr).trans call⟩
  · intro k answer seen done
    exact (holds.answered k answer seen done).mono kept

theorem CallsInvariant.next {s t : JobCalls ι} (holds : CallsInvariant jobId args s)
    (fresh : Function.Injective jobId) {op : CallOp ι}
    (moved : (callMachine jobId args).step s op = some t) : CallsInvariant jobId args t := by
  cases op with
  | call i => exact holds.call fresh (call_effect moved)
  | write written => exact holds.write moved

/-- No call ended in an error of the database. -/
def Unbroken (s : JobCalls ι) : Prop :=
  ∀ i answer seen, s.phase i = .finished answer seen → ¬ DatabaseError answer

theorem unbroken_finish {s : JobCalls ι} {i : ι} {answer : Except Raised BackgroundJob}
    (holds : Unbroken s) (ok : ¬ DatabaseError answer) : Unbroken (s.finish i answer) := by
  intro k answer' seen done
  by_cases same : k = i
  · subst same
    simp only [JobCalls.finish, JobCalls.goto, Function.update_self] at done
    cases done
    exact ok
  · simp only [JobCalls.finish, JobCalls.goto, Function.update_of_ne same] at done
    exact holds k answer' seen done

theorem unbroken_goto {s : JobCalls ι} {i : ι} {phase : CallPhase} (holds : Unbroken s)
    (ok : ∀ answer seen, phase ≠ .finished answer seen) : Unbroken (s.goto i phase) := by
  intro k answer seen done
  by_cases same : k = i
  · subst same
    simp only [JobCalls.goto, Function.update_self] at done
    exact absurd done (ok answer seen)
  · simp only [JobCalls.goto, Function.update_of_ne same] at done
    exact holds k answer seen done

omit [DecidableEq ι] in
/-- At the INSERT the committed rows are apart from the new one exactly when the call is unraced. -/
theorem unraced_iff {s : JobCalls ι} (holds : CallsInvariant jobId args s)
    (fresh : Function.Injective jobId) {i : ι} (phase : s.phase i = .insert) :
    Unraced args s (.call i) ↔ ∀ row ∈ s.jobs, (callRow jobId args i).conflicts row = false := by
  have running : ∀ answer seen, s.phase i ≠ .finished answer seen := by
    rw [phase]
    rintro _ _ ⟨⟩
  constructor
  · intro unraced row hr
    obtain ⟨keys, scopes⟩ := unraced phase
    cases clash : (callRow jobId args i).conflicts row with
    | false => rfl
    | true =>
      rw [conflicts_iff] at clash
      obtain sameId | ⟨key, own, keyed⟩ | ⟨scope, own, active⟩ := clash
      · exact absurd sameId.symm (holds.unfinished fresh running hr)
      · exact absurd keyed (Bool.eq_false_iff.mp (keys key own row hr))
      · exact absurd active (Bool.eq_false_iff.mp (scopes scope (activeIn_iff.mp own).2.1 row hr))
  · intro apart _
    constructor
    · intro key own row hr
      cases keyed : row.hasKey (args i).jobType key with
      | false => rfl
      | true =>
        have clash : (callRow jobId args i).conflicts row = true :=
          conflicts_iff.mpr (.inr (.inl ⟨key, own, keyed⟩))
        rw [apart row hr] at clash
        cases clash
    · intro scope own row hr
      cases active : row.activeIn (args i).jobType scope with
      | false => rfl
      | true =>
        have clash : (callRow jobId args i).conflicts row = true :=
          conflicts_iff.mpr (.inr (.inr ⟨scope, activeIn_iff.mpr ⟨rfl, own, rfl⟩, active⟩))
        rw [apart row hr] at clash
        cases clash

theorem unbroken_iff {s t : JobCalls ι} (holds : CallsInvariant jobId args s)
    (fresh : Function.Injective jobId) (unbroken : Unbroken s) {op : CallOp ι}
    (moved : (callMachine jobId args).step s op = some t) :
    Unbroken t ↔ Sendable args s op ∧ Unraced args s op := by
  cases op with
  | write written =>
    obtain ⟨rfl, -, -⟩ := write_rows moved
    exact iff_of_true unbroken ⟨trivial, trivial⟩
  | call i =>
    have idle (other : s.phase i ≠ .insert) : Unraced args s (.call i) := fun h => absurd h other
    cases call_effect moved with
    | answers phase _ ok sends =>
      refine iff_of_true (unbroken_finish unbroken ok) ⟨sends, idle ?_⟩
      intro atInsert
      rw [atInsert] at phase
      obtain ⟨⟨⟩⟩ | ⟨⟨⟩⟩ := phase
    | passes phase next sends =>
      refine iff_of_true (unbroken_goto unbroken ?_) ⟨sends, idle ?_⟩
      · rintro _ _ rfl
        obtain ⟨⟨⟩⟩ | ⟨⟨⟩⟩ := next
      · intro atInsert
        rw [atInsert] at phase
        obtain ⟨⟨⟩⟩ | ⟨⟨⟩⟩ := phase
    | rejects refused =>
      refine iff_of_false (fun ok => ?_) fun both => refused both.1
      exact ok i _ s.jobs (Function.update_self _ _ _) (.inr rfl)
    | clashes phase clash =>
      rw [unraced_iff holds fresh phase]
      refine iff_of_false (fun ok => ok i _ s.jobs (Function.update_self _ _ _) (.inl rfl)) ?_
      rintro ⟨-, apart⟩
      obtain ⟨row, hr, clash⟩ := clash
      rw [apart row hr] at clash
      cases clash
    | inserts phase storable free unused =>
      rw [unraced_iff holds fresh phase]
      refine iff_of_true (unbroken_goto unbroken (by rintro _ _ ⟨⟩)) ⟨?_, unused⟩
      exact storable_sends storable _
    | publishes phase =>
      refine iff_of_true (unbroken_finish unbroken (by rintro (⟨⟨⟩⟩ | ⟨⟨⟩⟩))) ⟨?_, idle ?_⟩
      · rw [Sendable, phase]
        trivial
      · rw [phase]
        rintro ⟨⟩

end Invariant

section Alone
variable {ι : Type} [DecidableEq ι] {jobId : ι → Str} {args : ι → CreateJobArgs}

theorem call_then {s t u : JobCalls ι} {i : ι} (moved : s.call jobId args i = some t)
    (rest : ∃ n, (callMachine jobId args).run t (List.replicate n (.call i)) = some u) :
    ∃ n, (callMachine jobId args).run s (List.replicate n (.call i)) = some u := by
  obtain ⟨n, ran⟩ := rest
  refine ⟨n + 1, ?_⟩
  rw [List.replicate_succ, run_cons]
  change (s.call jobId args i).bind _ = _
  rw [moved, Option.bind_some]
  exact ran

variable (jobId args) in
theorem call_insert {s : JobCalls ι} {i : ι} (alone : s.uncommitted = [])
    (phase : s.phase i = .insert) : s.call jobId args i =
      if ¬ (args i).Storable then some (s.finish i (.error dbapiError))
      else if s.jobs.any (callRow jobId args i).conflicts then
        some (s.finish i (.error integrityError))
      else some { s.goto i .commit with uncommitted := [(i, callRow jobId args i)] } := by
  simp [JobCalls.call, phase, alone]

theorem call_commit {s : JobCalls ι} {i : ι} (phase : s.phase i = .commit) :
    s.call jobId args i = some { s.finish i (.ok (callRow jobId args i)) with
      jobs := s.jobs ++ [callRow jobId args i]
      uncommitted := s.uncommitted.filter fun p => p.1 ≠ i } := by
  simp [JobCalls.call, phase]

/-- A call that meets no other one answers, and leaves the rows, as `create_job` does alone. -/
theorem call_alone (s : JobCalls ι) (i : ι) (start : s.phase i = .selectByKey)
    (alone : s.uncommitted = []) :
    ∃ t, (∃ n, (callMachine jobId args).run s (List.replicate n (.call i)) = some t) ∧
      t.jobs = (createJob (jobId i) (args i) s.jobs).2 ∧ t.uncommitted = [] ∧
      t.phase i = .finished (createJob (jobId i) (args i) s.jobs).1 s.jobs := by
  have went (u : JobCalls ι) (phase : CallPhase) : (u.goto i phase).phase i = phase :=
    Function.update_self _ _ _
  cases byKey : lookupKey (args i) s.jobs with
  | some answer =>
    refine ⟨s.finish i answer, call_then ?_ ⟨0, rfl⟩, ?_, alone, ?_⟩
    · simp [JobCalls.call, start, byKey]
    · simp [createJob, byKey, JobCalls.finish, JobCalls.goto]
    · rw [JobCalls.finish, went]
      simp [createJob, byKey]
  | none =>
    have first : s.call jobId args i = some (s.goto i .selectByScope) := by
      simp [JobCalls.call, start, byKey]
    cases byScope : lookupScope (args i) s.jobs with
    | some answer =>
      refine ⟨(s.goto i .selectByScope).finish i answer,
        call_then first (call_then ?_ ⟨0, rfl⟩), ?_, alone, ?_⟩
      · rw [JobCalls.call, went]
        simp [JobCalls.goto, byScope]
      · simp [createJob, byKey, byScope, JobCalls.finish, JobCalls.goto]
      · rw [JobCalls.finish, went]
        simp [createJob, byKey, byScope, JobCalls.goto]
    | none =>
      have second : (s.goto i .selectByScope).call jobId args i =
          some ((s.goto i .selectByScope).goto i .insert) := by
        rw [JobCalls.call, went]
        simp [JobCalls.goto, byScope]
      have created : createJob (jobId i) (args i) s.jobs =
          if ¬ (args i).Storable then (.error dbapiError, s.jobs)
          else if s.jobs.any (callRow jobId args i).conflicts then (.error integrityError, s.jobs)
          else (.ok (callRow jobId args i), s.jobs ++ [callRow jobId args i]) := by
        simp [createJob, byKey, byScope, callRow]
      have third := call_insert jobId args (s := (s.goto i .selectByScope).goto i .insert)
        alone (went _ _)
      rw [created]
      split
      · rename_i unstorable
        have ends := third.trans (if_pos unstorable)
        exact ⟨_, call_then first (call_then second (call_then ends ⟨0, rfl⟩)), rfl, alone,
          went _ _⟩
      · rename_i storable
        have third := third.trans (if_neg storable)
        split
        · rename_i clash
          have ends := third.trans (if_pos clash)
          exact ⟨_, call_then first (call_then second (call_then ends ⟨0, rfl⟩)), rfl, alone,
            went _ _⟩
        · rename_i unused
          have inserts := third.trans (if_neg unused)
          refine ⟨_, call_then first (call_then second (call_then inserts
            (call_then (call_commit (went _ _)) ⟨0, rfl⟩))), rfl, ?_, went _ _⟩
          simp

end Alone

section Resolution
variable {ι : Type} (jobId : ι → Str) (args : ι → CreateJobArgs)

/-- What the calls of one key may answer: the id of its only row under the row's
hash, ConflictError under another one. A call that also names a scope may be
refused for the scope. -/
def KeyResolved (s : JobCalls ι) : Prop :=
  (∀ jobType key, (s.jobs.filter (BackgroundJob.hasKey jobType key)).length ≤ 1) ∧
  ∀ i answer seen key, s.phase i = .finished answer seen → (args i).idempotencyKey = some key →
    ((args i).scopeKey = none → ∃ row ∈ s.jobs, row.hasKey (args i).jobType key = true) ∧
    ∀ row ∈ s.jobs, row.hasKey (args i).jobType key = true →
      (row.payload.requestHash = (args i).payload.requestHash →
        (∃ job, answer = .ok job ∧ job.id = row.id) ∨
          (args i).scopeKey ≠ none ∧ answer = .error (.app scopeConflict)) ∧
      ∀ old new, row.payload.requestHash = some old → (args i).payload.requestHash = some new →
        old ≠ new → ∃ message, answer = .error (.app (conflictError message))

/-- What the calls of one scope may answer: while a job of the scope is active
ConflictError, else the job they created; unless the row of their key answers. -/
def ScopeResolved (s : JobCalls ι) : Prop :=
  (∀ jobType scope, (s.jobs.filter (BackgroundJob.activeIn jobType scope)).length ≤ 1) ∧
  ∀ i answer seen scope, s.phase i = .finished answer seen → (args i).scopeKey = some scope →
    (∃ key existing, (args i).idempotencyKey = some key ∧ existing ∈ seen ∧
      existing.hasKey (args i).jobType key = true ∧ answer = replayJob (args i) existing) ∨
    ((∃ row ∈ seen, row.activeIn (args i).jobType scope = true) →
      answer = .error (.app scopeConflict)) ∧
    ((∀ row ∈ seen, row.activeIn (args i).jobType scope = false) →
      answer = .ok (callRow jobId args i))

/-- Races are resolved as sequences are, and no call ends in another error. -/
def Resolved (s : JobCalls ι) : Prop :=
  KeyResolved args s ∧ ScopeResolved jobId args s ∧
  ∀ i answer seen, s.phase i = .finished answer seen →
    (∃ job, answer = .ok job) ∨ ∃ message, answer = .error (.app (conflictError message))

theorem filter_length_le_one {α β : Type} {f : α → β} {p : α → Bool} {l : List α}
    (nodup : (l.map f).Nodup) (only : ∀ a ∈ l, ∀ b ∈ l, p a = true → p b = true → f a = f b) :
    (l.filter p).length ≤ 1 := by
  cases kept : l.filter p with
  | nil => exact Nat.zero_le _
  | cons a rest =>
    cases rest with
    | nil => exact le_refl _
    | cons b rest =>
      have sub : ((a :: b :: rest).map f).Nodup :=
        nodup.sublist (kept ▸ List.filter_sublist.map f)
      have mem : ∀ x ∈ a :: b :: rest, x ∈ l ∧ p x = true := fun x hx =>
        List.mem_filter.mp (kept ▸ hx)
      have ha := mem a List.mem_cons_self
      have hb := mem b (List.mem_cons_of_mem _ List.mem_cons_self)
      have same := only a ha.1 b hb.1 ha.2 hb.2
      rw [List.map_cons, List.map_cons, same] at sub
      exact absurd List.mem_cons_self (List.nodup_cons.mp sub).1

variable {jobId args}

theorem CallsInvariant.sameKey {s : JobCalls ι} (holds : CallsInvariant jobId args s)
    {jobType : BackgroundJobType} {key : Str} {a b : BackgroundJob} (ha : a ∈ s.jobs)
    (hb : b ∈ s.jobs) (keyA : a.hasKey jobType key = true) (keyB : b.hasKey jobType key = true) :
    a = b := by
  refine List.inj_on_of_nodup_map holds.ids ha hb ?_
  by_contra other
  have apart := holds.apart a (List.mem_append_left _ ha) b (List.mem_append_left _ hb) other
  have own := hasKey_iff.mp keyA
  have clash : a.conflicts b = true := conflicts_iff.mpr (.inr (.inl ⟨key, own.2, own.1 ▸ keyB⟩))
  rw [apart] at clash
  cases clash

theorem CallsInvariant.sameScope {s : JobCalls ι} (holds : CallsInvariant jobId args s)
    {jobType : BackgroundJobType} {scope : Str} {a b : BackgroundJob} (ha : a ∈ s.jobs)
    (hb : b ∈ s.jobs) (activeA : a.activeIn jobType scope = true)
    (activeB : b.activeIn jobType scope = true) : a.id = b.id := by
  by_contra other
  have apart := holds.apart a (List.mem_append_left _ ha) b (List.mem_append_left _ hb) other
  have own := activeIn_iff.mp activeA
  have clash : a.conflicts b = true :=
    conflicts_iff.mpr (.inr (.inr ⟨scope, own.1 ▸ activeA, own.1 ▸ activeB⟩))
  rw [apart] at clash
  cases clash

theorem CallsInvariant.keyResolved {s : JobCalls ι} (holds : CallsInvariant jobId args s)
    (unbroken : Unbroken s) : KeyResolved args s := by
  refine ⟨fun jobType key => filter_length_le_one holds.ids fun a ha b hb keyA keyB =>
    congrArg _ (holds.sameKey ha hb keyA keyB), ?_⟩
  intro i answer seen key done own
  cases holds.answered i answer seen done with
  | @created _ mine here same apart =>
    have keyed : mine.hasKey (args i).jobType key = true :=
      same.hasKey (hasKey_iff.mpr ⟨rfl, own⟩)
    refine ⟨fun _ => ⟨mine, here, keyed⟩, fun row hr keyRow => ?_⟩
    cases holds.sameKey here hr keyed keyRow
    have hash : mine.payload.requestHash = (args i).payload.requestHash := same.2.2.2.2.1
    refine ⟨fun _ => .inl ⟨_, rfl, same.1.symm⟩, fun old new hold hnew other => ?_⟩
    rw [hash, hnew, Option.some.injEq] at hold
    exact absurd hold.symm other
  | @replayed _ key' row existing own' before keyed here same =>
    cases own.symm.trans own'
    have keyRow' := same.hasKey keyed
    refine ⟨fun _ => ⟨row, here, keyRow'⟩, fun row' hr keyRow => ?_⟩
    cases holds.sameKey here hr keyRow' keyRow
    rw [same.2.2.2.2.1]
    obtain ⟨replayed, equal⟩ | ⟨replayed, different⟩ := replayJob_cases (args i) existing
    · rw [replayed]
      exact ⟨fun _ => .inl ⟨existing, rfl, same.1.symm⟩,
        fun old new hold hnew other => absurd (equal old new hold hnew) other⟩
    · rw [replayed]
      exact ⟨fun equal => absurd equal different, fun _ _ _ _ _ => ⟨_, rfl⟩⟩
  | refused named before active =>
    refine ⟨fun unnamed => ?_, fun row hr keyRow => ?_⟩
    · rw [unnamed] at named
      cases named
    exact ⟨fun _ => .inr ⟨by rw [named]; rintro ⟨⟩, rfl⟩, fun _ _ _ _ _ => ⟨_, rfl⟩⟩
  | broken => exact absurd (.inl rfl) (unbroken i _ seen done)
  | rejected => exact absurd (.inr rfl) (unbroken i _ seen done)

theorem CallsInvariant.scopeResolved {s : JobCalls ι} (holds : CallsInvariant jobId args s)
    (unbroken : Unbroken s) : ScopeResolved jobId args s := by
  refine ⟨fun jobType scope => filter_length_le_one holds.ids fun a ha b hb activeA activeB =>
    holds.sameScope ha hb activeA activeB, ?_⟩
  intro i answer seen scope done own
  cases holds.answered i answer seen done with
  | created here same apart =>
    refine .inr ⟨?_, fun _ => rfl⟩
    rintro ⟨row, hr, active⟩
    have clash : (callRow jobId args i).conflicts row = true :=
      conflicts_iff.mpr (.inr (.inr ⟨scope, activeIn_iff.mpr ⟨rfl, own, rfl⟩, active⟩))
    rw [apart row hr] at clash
    cases clash
  | replayed own' before keyed here same => exact .inl ⟨_, _, own', before, keyed, rfl⟩
  | @refused _ scope' existing named before active =>
    cases own.symm.trans named
    refine .inr ⟨fun _ => rfl, fun none => ?_⟩
    rw [none existing before] at active
    cases active
  | broken => exact absurd (.inl rfl) (unbroken i _ seen done)
  | rejected => exact absurd (.inr rfl) (unbroken i _ seen done)

theorem CallsInvariant.resolved_iff {s : JobCalls ι} (holds : CallsInvariant jobId args s) :
    Resolved jobId args s ↔ Unbroken s := by
  constructor
  · rintro ⟨-, -, answers⟩ i answer seen done broken
    obtain rfl | rfl := broken
    · obtain ⟨_, ⟨⟩⟩ | ⟨_, ⟨⟩⟩ := answers i _ seen done
    · obtain ⟨_, ⟨⟩⟩ | ⟨_, ⟨⟩⟩ := answers i _ seen done
  · intro unbroken
    refine ⟨holds.keyResolved unbroken, holds.scopeResolved unbroken, fun i answer seen done => ?_⟩
    cases holds.answered i answer seen done with
    | created => exact .inl ⟨_, rfl⟩
    | @replayed _ _ _ existing =>
      obtain ⟨replayed, -⟩ | ⟨replayed, -⟩ := replayJob_cases (args i) existing
      · exact .inl ⟨_, replayed⟩
      · exact .inr ⟨_, replayed⟩
    | refused => exact .inr ⟨_, rfl⟩
    | broken => exact absurd (.inl rfl) (unbroken i _ seen done)
    | rejected => exact absurd (.inr rfl) (unbroken i _ seen done)

variable [DecidableEq ι]

/-- Races are resolved in all states of a run exactly when the database takes the values of
every statement, and no INSERT comes after a commit that took its key or its scope. -/
theorem create_job_resolved_iff (jobId : ι → Str) (args : ι → CreateJobArgs)
    (fresh : Function.Injective jobId) (ops : List (CallOp ι)) (s : JobCalls ι)
    (ran : (callMachine jobId args).run {} ops = some s) :
    (∀ before after t, ops = before ++ after → (callMachine jobId args).run {} before = some t →
      Resolved jobId args t) ↔
      Meets (callMachine jobId args) (fun s op => Sendable args s op ∧ Unraced args s op)
        {} ops := by
  refine prefixes_iff_meets (I := CallsInvariant jobId args)
    (fun s t op holds moved => holds.next fresh moved) ?_ callsInvariant_initial ?_ ran
  · intro s t op holds resolved moved
    rw [(holds.next fresh moved).resolved_iff]
    exact unbroken_iff holds fresh (holds.resolved_iff.mp resolved) moved
  · rw [callsInvariant_initial.resolved_iff]
    rintro i answer seen ⟨⟩

end Resolution

/-- Two bulk requests with one idempotency key and one hash. -/
def twinArgs (_ : Bool) : CreateJobArgs where
  jobType := .bulkLogIngest
  payload := { requestHash := some ['h'] }
  totalItems := 1
  createdBy := none
  idempotencyKey := some ['k']
  scopeKey := none

def twinId (second : Bool) : Str := if second then ['b'] else ['a']

theorem twinId_injective : Function.Injective twinId := by
  intro a b
  revert a b
  decide

/-- One after the other, the second call is answered with the row of the first. -/
theorem create_job_resolved_inSequence :
    let ops : List (CallOp Bool) :=
      [.call false, .call false, .call false, .call false, .call true]
    (((callMachine twinId twinArgs).run {} ops).map fun s => s.jobs.length) = some 1 ∧
    ∀ before after t, ops = before ++ after →
      (callMachine twinId twinArgs).run {} before = some t → Resolved twinId twinArgs t := by
  intro ops
  obtain ⟨s, ran⟩ : ∃ s, (callMachine twinId twinArgs).run {} ops = some s :=
    Option.isSome_iff_exists.mp (by decide)
  exact ⟨by decide,
    (create_job_resolved_iff twinId twinArgs twinId_injective ops s ran).mpr (by decide)⟩

/-- Overlapping, the second INSERT runs into the row of the first. -/
theorem create_job_race_breaks :
    ¬ ∀ ops s, (callMachine twinId twinArgs).run {} ops = some s → Resolved twinId twinArgs s := by
  intro resolved
  let ops : List (CallOp Bool) := [.call false, .call true, .call false, .call true, .call false,
    .call false, .call true]
  obtain ⟨-, -, answers⟩ := resolved ops _ rfl
  obtain ⟨_, ⟨⟩⟩ | ⟨_, ⟨⟩⟩ := answers true (.error integrityError) _ rfl

end LogLens
