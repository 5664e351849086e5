import LogLens.SingleUse

/-! Once a logout, a logout of all sessions or the revocation of a family has
committed, no token it covers is exchanged any more, in the runs where every
write finds its row live and no login commits during a logout of all sessions
of its user. -/

namespace LogLens
open LabelledMachine RowVersions

/-- The tokens a bulk UPDATE is about. -/
def Sweep.covers (userId : Nat) (familyId : Str) : Sweep → Prop
  | .family f => familyId = f
  | .user u => userId = u

theorem condition_iff {sweep : Sweep} {row : RefreshToken} :
    sweep.condition row = true ↔ sweep.covers row.userId row.familyId ∧ row.revokedAt = none := by
  cases sweep <;> simp [Sweep.condition, RefreshToken.liveInFamily, RefreshToken.liveForUser,
    Sweep.covers]

section History

/-- A token that was issued, with its owner and family. -/
inductive IssuedTo (userId : Nat) (familyId : Str) (history : List TokenEvent) : Str → Prop
  | login {k : Str} : .issued k userId familyId ∈ history → IssuedTo userId familyId history k
  | rotation {k k' : Str} : IssuedTo userId familyId history k → .exchanged k k' ∈ history →
    IssuedTo userId familyId history k'

/-- A token issued before a revocation that covers it, or obtained by rotating one. -/
inductive Revoked : List TokenEvent → Str → Prop
  | loggedOut {history : List TokenEvent} {k : Str} {userId : Nat} {familyId : Str} :
    IssuedTo userId familyId history k → Revoked (.loggedOut k :: history) k
  | swept {history : List TokenEvent} {k : Str} {userId : Nat} {familyId : Str} {sweep : Sweep} :
    IssuedTo userId familyId history k → sweep.covers userId familyId →
    Revoked (.swept sweep :: history) k
  | descends {history : List TokenEvent} {k k' : Str} : Revoked history k →
    .exchanged k k' ∈ history → Revoked history k'
  | later {history : List TokenEvent} {k : Str} (event : TokenEvent) : Revoked history k →
    Revoked (event :: history) k

/-- No token is exchanged after a revocation that covers it. -/
def RevocationFinal (history : List TokenEvent) : Prop :=
  ∀ later k k' rest, history = later ++ .exchanged k k' :: rest → ¬ Revoked rest k

/-- Where the tokens revoked after one more event come from, when the event exchanges no
revoked token and logs no exchanged one out. -/
theorem Revoked.cons_cases {history : List TokenEvent} {event : TokenEvent} {k : Str}
    (unrevoked : ∀ k k', event = .exchanged k k' → ¬ Revoked history k)
    (unexchanged : ∀ k k', event = .loggedOut k → .exchanged k k' ∉ history)
    (revoked : Revoked (event :: history) k) :
    Revoked history k ∨ event = .loggedOut k ∨
      ∃ sweep userId familyId, event = .swept sweep ∧ IssuedTo userId familyId history k ∧
        sweep.covers userId familyId := by
  generalize same : event :: history = all at revoked
  induction revoked with
  | loggedOut issued =>
    cases same
    exact .inr (.inl rfl)
  | swept issued covers =>
    cases same
    exact .inr (.inr ⟨_, _, _, rfl, issued, covers⟩)
  | later _ revoked =>
    cases same
    exact .inl revoked
  | @descends _ k k' _ edge ih =>
    subst same
    obtain older | out | ⟨sweep, userId, familyId, swept, issued, covers⟩ := ih rfl
    · obtain new | old := List.mem_cons.mp edge
      · exact absurd older (unrevoked k k' new.symm)
      · exact .inl (.descends older old)
    · obtain new | old := List.mem_cons.mp edge
      · rw [out] at new
        cases new
      · exact absurd old (unexchanged k k' out)
    · obtain new | old := List.mem_cons.mp edge
      · rw [swept] at new
        cases new
      · exact .inr (.inr ⟨sweep, userId, familyId, swept, .rotation issued old, covers⟩)

end History

section Conditions
variable {τ ι : Type}

/-- A logout of all sessions of the user between its snapshot and its commit. -/
def TokenPhase.sweepsUser (userId : Nat) : TokenPhase τ → Bool
  | .sweep (.user u) .. | .commit (some (.swept (.user u))) _ => u = userId
  | _ => false

/-- The row a logout is about to revoke. -/
def TokenPhase.loggingOut : TokenPhase τ → Option Str
  | .revoke record _ (some _) _ => some record.jtiHash
  | _ => none

/-- The user a login is about to commit a row of. -/
def TokenPhase.loggingIn : TokenPhase τ → Option Nat
  | .commit (some (.issued _ userId _)) _ => some userId
  | _ => none

/-- No exchange of the token has committed. -/
def Unrotated (s : TokenRun τ ι) (k : Str) : Prop := k ∉ s.history.filterMap TokenEvent.spent

instance (s : TokenRun τ ι) (k : Str) : Decidable (Unrotated s k) :=
  inferInstanceAs (Decidable (k ∉ s.history.filterMap TokenEvent.spent))

theorem unrotated_iff {s : TokenRun τ ι} {k : Str} :
    Unrotated s k ↔ ∀ k', .exchanged k k' ∉ s.history := by
  unfold Unrotated
  rw [List.mem_filterMap]
  constructor
  · rintro none k' edge
    exact none ⟨_, edge, rfl⟩
  · rintro none ⟨event, committed, spent⟩
    cases event with
    | exchanged spentKey k' =>
      cases spent
      exact none k' committed
    | issued | loggedOut | swept => cases spent

/-- A rotation finds its row live, a logout and a bulk UPDATE reach no row that has been
rotated, and no login commits during a logout of all sessions of its user. -/
def FindsCurrent (s : TokenRun τ ι) : TokenOp ι → Prop
  | .step i => RotatesLive s (.step i) ∧
    (∀ k ∈ (s.phase i).loggingOut, Unrotated s k) ∧
    ∀ userId ∈ (s.phase i).loggingIn, ∀ j, (s.phase j).sweepsUser userId = false
  | .touch _ k => Unrotated s k
  | .abort _ | .users _ => True

instance {n : Nat} (s : TokenRun τ (Fin n)) :
    (op : TokenOp (Fin n)) → Decidable (FindsCurrent s op)
  | .step i => inferInstanceAs (Decidable (RotatesLive s (.step i) ∧
      (∀ k ∈ (s.phase i).loggingOut, Unrotated s k) ∧
      ∀ userId ∈ (s.phase i).loggingIn, ∀ j, (s.phase j).sweepsUser userId = false))
  | .touch _ k => inferInstanceAs (Decidable (Unrotated s k))
  | .abort _ | .users _ => isTrue trivial

/-- A family that is swept has a row. -/
def KnownSweep (s : TokenRun τ ι) : Sweep → Prop
  | .family f => ∃ k row, s.rows.committed k = some row ∧ row.familyId = f
  | .user _ => True

/-- The matching rows are locked or still to be reached, unless a row still to be reached
has been rotated. -/
def Covered (s : TokenRun τ ι) (i : ι) (sweep : Sweep) (remaining : List Str) : Prop :=
  (∀ k row, s.rows.committed k = some row → sweep.condition row = true →
    k ∈ remaining ∨ ∃ version, s.rows.uncommitted k = some (i, version)) ∨
  ∃ k ∈ remaining, ¬ Unrotated s k

/-- What holds of a revoking request between two statements. -/
def SweepHolds (s : TokenRun τ ι) (i : ι) : TokenPhase τ → Prop
  | .bulk sweep _ _ => KnownSweep s sweep
  | .sweep sweep _ remaining _ => KnownSweep s sweep ∧ Covered s i sweep remaining
  | .commit (some (.swept sweep)) _ => KnownSweep s sweep ∧ Covered s i sweep []
  | .commit (some (.loggedOut k)) _ => Unrotated s k ∧
    ∃ row version, s.rows.committed k = some row ∧ s.rows.uncommitted k = some (i, version)
  | _ => True

variable {s t : TokenRun τ ι} {i j : ι}

theorem KnownSweep.of_later {sweep : Sweep} (known : KnownSweep s sweep)
    (rows : ∀ k row, s.rows.committed k = some row →
      ∃ row', t.rows.committed k = some row' ∧ Later row row') : KnownSweep t sweep := by
  cases sweep with
  | family f =>
    obtain ⟨k, row, found, family⟩ := known
    obtain ⟨row', found', later⟩ := rows k row found
    exact ⟨k, row', found', later.familyId.trans family⟩
  | user => trivial

/-- Statements of others that commit nothing. -/
theorem SweepHolds.statement {phase : TokenPhase τ} (holds : SweepHolds s j phase)
    (same : t.rows.committed = s.rows.committed) (history : t.history = s.history)
    (kept : ∀ k version, s.rows.uncommitted k = some (j, version) →
      t.rows.uncommitted k = some (j, version)) : SweepHolds t j phase := by
  have known : ∀ {sweep}, KnownSweep s sweep → KnownSweep t sweep := fun known =>
    known.of_later fun k row found => ⟨row, same ▸ found, .refl row⟩
  have covered : ∀ {sweep remaining}, Covered s j sweep remaining →
      Covered t j sweep remaining := by
    intro sweep remaining covered
    unfold Covered Unrotated
    rw [same, history]
    refine covered.imp_left fun all k row found matching => ?_
    refine (all k row found matching).imp_right ?_
    rintro ⟨version, locked⟩
    exact ⟨version, kept k version locked⟩
  unfold SweepHolds at holds ⊢
  split <;> simp only at holds
  · exact known holds
  · exact ⟨known holds.1, covered holds.2⟩
  · exact ⟨known holds.1, covered holds.2⟩
  · obtain ⟨unrotated, row, version, found, locked⟩ := holds
    unfold Unrotated
    rw [history, same]
    exact ⟨unrotated, row, version, found, kept _ version locked⟩
  · trivial

end Conditions

section Invariant
variable [Platform] {τ ι : Type} [TokenLibrary τ] (settings : Settings)
  (requests : ι → TokenRequest τ)

structure RevocationInvariant (s : TokenRun τ ι) : Prop where
  base : TokenInvariant settings requests s
  sweeps : ∀ i, SweepHolds s i (s.phase i)
  issued : ∀ k userId familyId, .issued k userId familyId ∈ s.history →
    ∃ row, s.rows.committed k = some row ∧ row.userId = userId ∧ row.familyId = familyId
  successors : ∀ k k', .exchanged k k' ∈ s.history →
    ∃ row row', s.rows.committed k = some row ∧ s.rows.committed k' = some row' ∧
      row'.userId = row.userId ∧ row'.familyId = row.familyId
  revoked : ∀ k, Revoked s.history k →
    ∃ row, s.rows.committed k = some row ∧ row.revokedAt ≠ none
  final : RevocationFinal s.history

variable {settings requests} {s t : TokenRun τ ι} {i j : ι}

theorem revocationInvariant_initial :
    RevocationInvariant settings requests ({} : TokenRun τ ι) where
  base := tokenInvariant_initial
  sweeps _ := trivial
  issued := by rintro k userId familyId ⟨⟩
  successors := by rintro k k' ⟨⟩
  revoked := by
    intro k revoked
    generalize none : ({} : TokenRun τ ι).history = history at revoked
    induction revoked with
    | loggedOut | swept | later => cases none
    | descends _ edge => subst none; cases edge
  final := by
    intro later k k' rest split
    exact absurd split (by simp)

omit [Platform] [TokenLibrary τ] in
theorem issuedTo_row {userId : Nat} {familyId : Str} {k : Str}
    (issued : ∀ k userId familyId, .issued k userId familyId ∈ s.history →
      ∃ row, s.rows.committed k = some row ∧ row.userId = userId ∧ row.familyId = familyId)
    (successors : ∀ k k', .exchanged k k' ∈ s.history →
      ∃ row row', s.rows.committed k = some row ∧ s.rows.committed k' = some row' ∧
        row'.userId = row.userId ∧ row'.familyId = row.familyId)
    (named : IssuedTo userId familyId s.history k) :
    ∃ row, s.rows.committed k = some row ∧ row.userId = userId ∧ row.familyId = familyId := by
  induction named with
  | login new => exact issued _ _ _ new
  | rotation _ edge ih =>
    obtain ⟨row, found, user, family⟩ := ih
    obtain ⟨spent, next, found', foundNext, sameUser, sameFamily⟩ := successors _ _ edge
    cases found.symm.trans found'
    exact ⟨next, foundNext, sameUser.trans user, sameFamily.trans family⟩

/-- A statement of `i` that commits nothing. -/
theorem RevocationInvariant.statement [DecidableEq ι]
    (holds : RevocationInvariant settings requests s) (base : TokenInvariant settings requests t)
    {p : TokenPhase τ} (same : t.rows.committed = s.rows.committed)
    (history : t.history = s.history) (phase : t.phase = Function.update s.phase i p)
    (kept : ∀ j ≠ i, ∀ k version, s.rows.uncommitted k = some (j, version) →
      t.rows.uncommitted k = some (j, version))
    (here : SweepHolds t i p) : RevocationInvariant settings requests t := by
  refine ⟨base, fun j => ?_, ?_, ?_, ?_, ?_⟩
  · rw [phase]
    by_cases own : j = i
    · subst own
      rwa [Function.update_self]
    · rw [Function.update_of_ne own]
      exact (holds.sweeps j).statement same history (kept j own)
  · rw [history, same]
    exact holds.issued
  · rw [history, same]
    exact holds.successors
  · rw [history, same]
    exact holds.revoked
  · rw [history]
    exact holds.final

/-- What a commit leaves of the rows another request is to revoke. -/
theorem Covered.commit [DecidableEq ι] (base : TokenInvariant settings requests s)
    (fresh : FreshUuids requests) {event : Option TokenEvent} {answer : TokenAnswer τ}
    (committing : s.phase i = .commit event answer) {sweep : Sweep} {remaining : List Str}
    (noLogin : ∀ k userId familyId, event = some (.issued k userId familyId) →
      sweep ≠ .user userId)
    (other : j ≠ i) (known : KnownSweep s sweep) (covered : Covered s j sweep remaining) :
    Covered { s.goto i (.finished answer) with
      rows := s.rows.commit i
      history := event.toList ++ s.history } j sweep remaining := by
  obtain all | ⟨k, hk, rotated⟩ := covered
  · by_cases escaped : ∃ k ∈ remaining, ∃ k', event = some (.exchanged k k')
    · obtain ⟨k, hk, k', rfl⟩ := escaped
      exact .inr ⟨k, hk, fun unrotated => unrotated_iff.mp unrotated k' List.mem_cons_self⟩
    · refine .inl fun k row found matching => ?_
      obtain ⟨found, foreign⟩ | ⟨_, _, _, revoked⟩ | ⟨-, -, e, pair, committing', minted⟩ :=
        base.committed_cases found
      · refine (all k row found matching).imp_right ?_
        rintro ⟨version, locked⟩
        exact ⟨version, commit_uncommitted.mpr ⟨locked, other⟩⟩
      · exact absurd (condition_iff.mp matching).2 revoked
      · cases committing.symm.trans committing'
        obtain ⟨-, -, uuids, drawn, -, -, origin⟩ := minted
        have covers := (condition_iff.mp matching).1
        cases origin with
        | login request new =>
          exfalso
          cases sweep with
          | user userId => exact noLogin _ _ _ rfl (congrArg Sweep.user (Eq.symm covers))
          | family f =>
            obtain ⟨k', row', found', family⟩ := known
            obtain ⟨j', user, readings, uuids', request', family', ended⟩ :=
              base.families k' row' found'
            have apart : i ≠ j' := by
              rintro rfl
              rw [committing] at ended
              cases ended
            refine (fresh i j' apart uuids drawn uuids' (by rw [request']; rfl)).2 ?_
            rw [← new, ← family', family]
            exact covers
        | @rotation spent old version foundOld live locked user family =>
          exfalso
          have matched : sweep.condition old = true :=
            condition_iff.mpr ⟨by rwa [user, family] at covers, live⟩
          obtain inside | ⟨version', locked'⟩ := all _ old foundOld matched
          · exact escaped ⟨_, inside, _, rfl⟩
          · rw [locked, Option.some.injEq, Prod.mk.injEq] at locked'
            exact other locked'.1.symm
  · refine .inr ⟨k, hk, fun unrotated => rotated (unrotated_iff.mpr fun k' edge => ?_)⟩
    exact unrotated_iff.mp unrotated k' (List.mem_append_right _ edge)

theorem SweepHolds.commit [DecidableEq ι] (base : TokenInvariant settings requests s)
    (fresh : FreshUuids requests) {event : Option TokenEvent} {answer : TokenAnswer τ}
    (committing : s.phase i = .commit event answer) {phase : TokenPhase τ}
    (noLogin : ∀ k userId familyId, event = some (.issued k userId familyId) →
      phase.sweepsUser userId = false)
    (other : j ≠ i) (holds : SweepHolds s j phase) :
    SweepHolds { s.goto i (.finished answer) with
      rows := s.rows.commit i
      history := event.toList ++ s.history } j phase := by
  have known : ∀ {sweep}, KnownSweep s sweep → KnownSweep { s.goto i (.finished answer) with
      rows := s.rows.commit i, history := event.toList ++ s.history } sweep := fun known =>
    known.of_later fun k row found => base.committed_later found
  unfold SweepHolds at holds ⊢
  split <;> simp only at holds
  · exact known holds
  · refine ⟨known holds.1, Covered.commit base fresh committing ?_ other holds.1 holds.2⟩
    rintro k userId familyId issued rfl
    simpa [TokenPhase.sweepsUser] using noLogin k userId familyId issued
  · refine ⟨known holds.1, Covered.commit base fresh committing ?_ other holds.1 holds.2⟩
    rintro k userId familyId issued rfl
    simpa [TokenPhase.sweepsUser] using noLogin k userId familyId issued
  · rename_i k _
    obtain ⟨unrotated, row, version, found, locked⟩ := holds
    have foreign : ∀ version', s.rows.uncommitted k ≠ some (i, version') := by
      intro version' mine
      rw [locked, Option.some.injEq, Prod.mk.injEq] at mine
      exact other mine.1
    refine ⟨unrotated_iff.mpr fun k' edge => ?_, row, version, (commit_other foreign).trans found,
      commit_uncommitted.mpr ⟨locked, other⟩⟩
    rw [List.mem_append, Option.mem_toList] at edge
    obtain new | old := edge
    · subst new
      obtain ⟨_, version', _, -, -, mine, -⟩ := base.spending committing
      exact foreign version' mine
    · exact unrotated_iff.mp unrotated k' old
  · trivial

/-- A token is spent before it is revoked. -/
theorem RevocationInvariant.unrevoked (holds : RevocationInvariant settings requests s)
    {k k' : Str} {answer : TokenAnswer τ}
    (committing : s.phase i = .commit (some (.exchanged k k')) answer) :
    ¬ Revoked s.history k := by
  intro revoked
  obtain ⟨row, version, -, found, live, -⟩ := holds.base.spending committing
  obtain ⟨row', found', dead⟩ := holds.revoked k revoked
  cases found.symm.trans found'
  exact dead live

/-- The row of a token that is revoked once the commit is in the history. -/
theorem RevocationInvariant.commit_revoked [DecidableEq ι]
    (holds : RevocationInvariant settings requests s) {event : Option TokenEvent}
    {answer : TokenAnswer τ} (committing : s.phase i = .commit event answer) {k : Str}
    (revoked : Revoked (event.toList ++ s.history) k) :
    ∃ row, (s.rows.commit i).committed k = some row ∧ row.revokedAt ≠ none := by
  have here := holds.sweeps i
  rw [committing] at here
  cases event with
  | none => exact holds.base.stays_revoked (holds.revoked k revoked)
  | some e =>
    have cases := Revoked.cons_cases ?_ ?_ revoked
    · obtain older | rfl | ⟨sweep, userId, familyId, rfl, issued, covers⟩ := cases
      · exact holds.base.stays_revoked (holds.revoked k older)
      · obtain ⟨-, row, version, found, locked⟩ := here
        exact holds.base.becomes_revoked found locked
      · obtain ⟨row, found, user, family⟩ := issuedTo_row holds.issued holds.successors issued
        by_cases live : row.revokedAt = none
        · obtain all | ⟨_, ⟨⟩, _⟩ := here.2
          have matching : sweep.condition row = true :=
            condition_iff.mpr ⟨by rwa [user, family], live⟩
          obtain ⟨version, locked⟩ := (all k row found matching).resolve_left List.not_mem_nil
          exact holds.base.becomes_revoked found locked
        · exact holds.base.stays_revoked ⟨row, found, live⟩
    · rintro k k' rfl
      exact holds.unrevoked committing
    · rintro k k' rfl edge
      exact unrotated_iff.mp here.1 k' edge

theorem RevocationInvariant.commit_final (holds : RevocationInvariant settings requests s)
    {event : Option TokenEvent} {answer : TokenAnswer τ}
    (committing : s.phase i = .commit event answer) :
    RevocationFinal (event.toList ++ s.history) := by
  cases event with
  | none => exact holds.final
  | some e =>
    intro before k k' rest split
    cases before with
    | nil =>
      obtain ⟨rfl, rfl⟩ := List.cons_eq_cons.mp split
      exact holds.unrevoked committing
    | cons _ before => exact holds.final before k k' rest (List.cons_eq_cons.mp split).2

theorem RevocationInvariant.commit [DecidableEq ι] (holds : RevocationInvariant settings requests s)
    (fresh : FreshUuids requests) {event : Option TokenEvent} {answer : TokenAnswer τ}
    (committing : s.phase i = .commit event answer)
    (noLogin : ∀ k userId familyId, event = some (.issued k userId familyId) →
      ∀ j, (s.phase j).sweepsUser userId = false) :
    RevocationInvariant settings requests { s.goto i (.finished answer) with
      rows := s.rows.commit i
      history := event.toList ++ s.history } := by
  have later := fun k row (found : s.rows.committed k = some row) =>
    holds.base.committed_later (i := i) found
  refine ⟨holds.base.commit fresh committing, fun j => ?_, ?_, ?_, ?_, ?_⟩
  · by_cases own : j = i
    · subst own
      change SweepHolds _ j (Function.update s.phase j _ j)
      rw [Function.update_self]
      trivial
    · change SweepHolds _ j (Function.update s.phase i _ j)
      rw [Function.update_of_ne own]
      exact (holds.sweeps j).commit holds.base fresh committing
        (fun k userId familyId new => noLogin k userId familyId new j) own
  · intro k userId familyId issued
    rw [List.mem_append, Option.mem_toList] at issued
    obtain new | old := issued
    · subst new
      have minted := holds.base.phases i
      rw [committing] at minted
      obtain quiet | ⟨e, pair, _, row, same, -, locked, -, -, -, uuids, -, -, -, origin⟩ := minted
      · exact absurd rfl (quiet.1 k userId familyId)
      · cases same
        cases origin with
        | login => exact ⟨row, commit_own locked, rfl, rfl⟩
    · obtain ⟨row, found, user, family⟩ := holds.issued k userId familyId old
      obtain ⟨row', found', later⟩ := later k row found
      exact ⟨row', found', later.userId.trans user, later.familyId.trans family⟩
  · intro k k' edge
    rw [List.mem_append, Option.mem_toList] at edge
    obtain new | old := edge
    · subst new
      obtain ⟨row, _, next, found, -, -, inserted, user, family⟩ := holds.base.spending committing
      obtain ⟨row', found', later⟩ := later k row found
      exact ⟨row', next, found', commit_own inserted, user.trans later.userId.symm,
        family.trans later.familyId.symm⟩
    · obtain ⟨row, next, found, foundNext, user, family⟩ := holds.successors k k' old
      obtain ⟨row', found', later'⟩ := later k row found
      obtain ⟨next', foundNext', laterNext⟩ := later k' next foundNext
      exact ⟨row', next', found', foundNext',
        (laterNext.userId.trans user).trans later'.userId.symm,
        (laterNext.familyId.trans family).trans later'.familyId.symm⟩
  · intro k revoked
    exact holds.commit_revoked committing revoked
  · exact holds.commit_final committing

theorem SweepHolds.begin (base : TokenInvariant settings requests s)
    (genuine : Genuine settings requests s (.step i)) (start : s.phase i = .start) :
    SweepHolds s i (s.begin settings (requests i)) := by
  have texts := genuine start
  unfold TokenRun.begin
  cases request : requests i with
  | login | logoutAll => trivial
  | logout token readings =>
    simp only
    split
    · trivial
    · split <;> trivial
  | refresh token readings uuids =>
    rw [request] at texts
    simp only
    split
    · trivial
    · rename_i record found
      split
      · trivial
      · split
        · split
          · obtain ⟨row, here, -, -, -, later⟩ := base.record texts found
            exact ⟨record.jtiHash, row, here, later.familyId⟩
          · trivial
        · trivial

theorem RevocationInvariant.step [DecidableEq ι] (holds : RevocationInvariant settings requests s)
    (fresh : FreshUuids requests) (genuine : Genuine settings requests s (.step i))
    (current : FindsCurrent s (.step i)) (moved : s.step settings requests i = some t) :
    RevocationInvariant settings requests t := by
  have base := holds.base.step fresh genuine current.1 moved
  have here := holds.sweeps i
  have goto : ∀ p, t = s.goto i p → SweepHolds s i p → RevocationInvariant settings requests t := by
    rintro p rfl held
    exact holds.statement base rfl rfl rfl (fun _ _ _ _ locked => locked)
      (held.statement rfl rfl fun _ _ locked => locked)
  unfold TokenRun.step at moved
  cases phase : s.phase i with
  | start =>
    simp only [phase, Option.some.injEq] at moved
    exact goto _ moved.symm (.begin holds.base genuine phase)
  | selectUser record readings uuids =>
    simp only [phase] at moved
    split at moved
    · exact goto _ (Option.some.inj moved).symm trivial
    · split at moved <;> exact goto _ (Option.some.inj moved).symm trivial
  | rotate record readings uuids =>
    simp only [phase] at moved
    obtain ⟨row, -, same, -, next, history, kept⟩ := update_spec moved
    exact holds.statement base same history next kept trivial
  | insert k row event pair =>
    simp only [phase] at moved
    split at moved
    · cases moved
      exact holds.statement base rfl rfl rfl
        (fun j other k' version locked => rollback_uncommitted.mpr ⟨locked, other⟩) trivial
    · rw [Option.map_eq_some_iff] at moved
      obtain ⟨rows, wrote, rfl⟩ := moved
      refine holds.statement base (write_committed wrote) rfl rfl
        (fun j other k' version locked => write_others wrote other locked) ?_
      have minted := holds.base.phases i
      rw [phase] at minted
      obtain ⟨-, -, uuids, -, -, -, origin⟩ := minted
      cases origin <;> trivial
  | revoke record revokedAt event answer =>
    simp only [phase] at moved
    obtain ⟨row, found, same, versions, next, history, kept⟩ := update_spec moved
    refine holds.statement base same history next kept ?_
    have revoking := holds.base.phases i
    rw [phase] at revoking
    cases event with
    | none => trivial
    | some e =>
      obtain ⟨-, named⟩ := revoking.2.2 (by rintro ⟨⟩)
      cases named
      have locked : t.rows.uncommitted record.jtiHash = some (i,
          flushToken record.token (record.token.revoke revokedAt none) row) := by
        rw [versions, Function.update_self]
      have unrotated : Unrotated s record.jtiHash := current.2.1 _ (by rw [phase]; rfl)
      unfold Unrotated at unrotated
      rw [← history] at unrotated
      exact ⟨unrotated, row, _, same ▸ found, locked⟩
  | bulk sweep revokedAt answer =>
    rw [phase] at here
    simp only [phase, Option.some.injEq] at moved
    refine goto _ moved.symm ⟨here, .inl fun k row found matching => .inl ?_⟩
    exact mem_matching.mpr ⟨row, found, matching⟩
  | sweep sweep revokedAt remaining answer =>
    rw [phase] at here
    simp only [phase] at moved
    split at moved
    · rename_i done
      rw [done] at here
      exact goto _ (Option.some.inj moved).symm here
    · cases moved
  | commit event answer =>
    simp only [phase, Option.some.injEq] at moved
    subst moved
    refine holds.commit fresh phase ?_
    rintro k userId familyId rfl
    exact current.2.2 userId (by rw [phase]; rfl)
  | finished answer =>
    simp only [phase] at moved
    cases moved

theorem RevocationInvariant.touch [DecidableEq ι] (holds : RevocationInvariant settings requests s)
    {k : Str} (unrotated : Unrotated s k) (moved : s.touch i k = some t) :
    RevocationInvariant settings requests t := by
  have base := holds.base.touch moved
  have here := holds.sweeps i
  unfold TokenRun.touch at moved
  split at moved
  · rename_i sweep revokedAt remaining answer phase
    rw [phase] at here
    split at moved
    · simp only at moved
      split at moved
      · cases moved
      · split at moved
        · obtain ⟨row, found, same, versions, next, history, kept⟩ := update_spec moved
          refine holds.statement base same history next kept ⟨here.1.of_later fun k' row' found' =>
            ⟨row', same ▸ found', .refl row'⟩, ?_⟩
          obtain all | ⟨k', hk', rotated⟩ := here.2
          · refine .inl fun k' row' found' matching => ?_
            by_cases reached : k' = k
            · subst reached
              exact .inr ⟨_, by rw [versions, Function.update_self]⟩
            · rw [same] at found'
              rw [versions, Function.update_of_ne reached]
              exact (all k' row' found' matching).imp_left (List.mem_erase_of_ne reached).mpr
          · refine .inr ⟨k', (List.mem_erase_of_ne ?_).mpr hk', ?_⟩
            · rintro rfl
              exact rotated unrotated
            · unfold Unrotated
              rwa [history]
        · rename_i unmatched
          cases moved
          refine holds.statement base rfl rfl rfl (fun _ _ _ _ locked => locked) ⟨here.1, ?_⟩
          obtain all | ⟨k', hk', rotated⟩ := here.2
          · refine .inl fun k' row' found' matching => ?_
            refine (all k' row' found' matching).imp_left (List.mem_erase_of_ne ?_).mpr
            rintro rfl
            change s.rows.committed k' = some row' at found'
            rw [found'] at unmatched
            exact unmatched matching
          · refine .inr ⟨k', (List.mem_erase_of_ne ?_).mpr hk', rotated⟩
            rintro rfl
            exact rotated unrotated
    · cases moved
  · cases moved

theorem RevocationInvariant.next [DecidableEq ι] (holds : RevocationInvariant settings requests s)
    (fresh : FreshUuids requests) {op : TokenOp ι} (genuine : Genuine settings requests s op)
    (current : FindsCurrent s op) (moved : (tokenMachine settings requests).step s op = some t) :
    RevocationInvariant settings requests t := by
  have rotatesLive : RotatesLive s op := by
    cases op with
    | step => exact current.1
    | touch | abort | users => trivial
  have base := holds.base.next fresh genuine rotatesLive moved
  cases op with
  | step i => exact holds.step fresh genuine current moved
  | touch i k => exact holds.touch current moved
  | abort i =>
    change (if (s.phase i).ended then _ else _) = _ at moved
    split at moved <;> cases moved
    exact holds.statement base rfl rfl rfl
      (fun j other k version locked => rollback_uncommitted.mpr ⟨locked, other⟩) trivial
  | users users =>
    cases moved
    exact ⟨base, fun j => (holds.sweeps j).statement rfl rfl fun _ _ locked => locked, holds.issued,
      holds.successors, holds.revoked, holds.final⟩

/-- No exchange follows a revocation that covers its token, in every run whose writes find
current rows. -/
theorem revocation_final_of_current [DecidableEq ι] (settings : Settings)
    (requests : ι → TokenRequest τ) (fresh : FreshUuids requests) (s : TokenRun τ ι)
    (reached : Reach (tokenMachine settings requests)
      (fun s op => Genuine settings requests s op ∧ FindsCurrent s op) (· = {}) s) :
    RevocationFinal s.history := by
  have holds := reached.invariant (I := RevocationInvariant settings requests)
    (by rintro _ rfl; exact revocationInvariant_initial)
    fun s t op holds met moved => holds.next fresh met.1 met.2 moved
  exact holds.final

end Invariant

/-- A login, a refresh of its token, a logout of all sessions and a refresh of the successor. -/
def refreshAndLogoutAll : Fin 4 → TokenRequest (Claims × Str)
  | 0 => .login sampleUser (readingsAt 0) ⟨repeatedUuid 'a', repeatedUuid 'f'⟩
  | 1 => .refresh (familyToken 'a' 0) (readingsAt 1) ⟨repeatedUuid 'b', repeatedUuid 'g'⟩
  | 2 => .logoutAll 1 (readingsAt 2)
  | 3 => .refresh (familyToken 'b' 1) (readingsAt 3) ⟨repeatedUuid 'c', repeatedUuid 'h'⟩

def refreshAndLogoutAllMachine : Machine (TokenRun (Claims × Str) (Fin 4)) (TokenOp (Fin 4)) :=
  @tokenMachine asciiPlatform _ _ openLibrary _ sharedSecret refreshAndLogoutAll

theorem refreshAndLogoutAll_fresh : @FreshUuids asciiPlatform _ _ refreshAndLogoutAll := by
  unfold FreshUuids
  decide

/-- The logout reads the rows after the first refresh committed. -/
def logoutAfterRefresh : List (TokenOp (Fin 4)) :=
  [.users [sampleUser], .step 0, .step 0, .step 0, .step 1, .step 1, .step 1, .step 1, .step 1,
    .step 2, .step 2, .touch 2 (repeatedUuid 'b').text, .step 2, .step 2, .step 3]

theorem revocation_final_logoutAfterRefresh :
    ∃ s, refreshAndLogoutAllMachine.run {} logoutAfterRefresh = some s ∧
      (s.phase 3).ended = true ∧ s.history = [.swept (.user 1),
        .exchanged (repeatedUuid 'a').text (repeatedUuid 'b').text,
        .issued (repeatedUuid 'a').text 1 (repeatedUuid 'f').text] ∧
      RevocationFinal s.history := by
  obtain ⟨s, ran⟩ : ∃ s, refreshAndLogoutAllMachine.run {} logoutAfterRefresh = some s :=
    Option.isSome_iff_exists.mp (by decide)
  have done : (refreshAndLogoutAllMachine.run {} logoutAfterRefresh).map
      (fun s => ((s.phase 3).ended, s.history)) = some (true, [.swept (.user 1),
        .exchanged (repeatedUuid 'a').text (repeatedUuid 'b').text,
        .issued (repeatedUuid 'a').text 1 (repeatedUuid 'f').text]) := by decide
  rw [ran, Option.map_some, Option.some.injEq, Prod.mk.injEq] at done
  have reached : Reach refreshAndLogoutAllMachine
      (fun s op => Echoes refreshAndLogoutAll s op ∧ FindsCurrent s op) (· = {}) s :=
    Reach.of_run (.start rfl) (by decide) ran
  exact ⟨s, ran, done.1, done.2, @revocation_final_of_current asciiPlatform _ _ openLibrary _
    sharedSecret refreshAndLogoutAll refreshAndLogoutAll_fresh s
    (reached.weaken fun _ _ met => ⟨@Echoes.genuine _ _ openLibrary _ _ _ _ met.1, met.2⟩)⟩

/-- The logout reads the rows while the first refresh is in flight, and passes over the row
that the refresh spends; the successor is still accepted. -/
theorem revocation_final_fails :
    ¬ ∀ s, Reach refreshAndLogoutAllMachine
      (@Genuine _ _ openLibrary sharedSecret refreshAndLogoutAll) (· = {}) s →
        RevocationFinal s.history := by
  intro final
  let ops : List (TokenOp (Fin 4)) := [.users [sampleUser], .step 0, .step 0, .step 0, .step 1,
    .step 1, .step 1, .step 2, .step 2, .step 1, .step 1, .touch 2 (repeatedUuid 'a').text, .step 2,
    .step 2, .step 3, .step 3, .step 3, .step 3, .step 3]
  let before : List TokenEvent := [.exchanged (repeatedUuid 'a').text (repeatedUuid 'b').text,
    .issued (repeatedUuid 'a').text 1 (repeatedUuid 'f').text]
  obtain ⟨s, ran⟩ : ∃ s, refreshAndLogoutAllMachine.run {} ops = some s :=
    Option.isSome_iff_exists.mp (by decide)
  have history : (refreshAndLogoutAllMachine.run {} ops).map TokenRun.history =
      some (.exchanged (repeatedUuid 'b').text (repeatedUuid 'c').text ::
        .swept (.user 1) :: before) := by decide
  rw [ran, Option.map_some, Option.some.injEq] at history
  have reached : Reach refreshAndLogoutAllMachine (Echoes refreshAndLogoutAll) (· = {}) s :=
    Reach.of_run (.start rfl) (by decide) ran
  have issued : IssuedTo 1 (repeatedUuid 'f').text before (repeatedUuid 'b').text :=
    .rotation (.login (by decide)) List.mem_cons_self
  have genuine := reached.weaken fun _ _ met =>
    @Echoes.genuine _ _ openLibrary sharedSecret _ _ _ met
  exact final s genuine [] _ _ _ history (.swept issued rfl)

end LogLens
