import LogLens.RefreshHistory
import LogLens.Library.PointerChains

/-! The record of a revocation, `revoked_at` and `replaced_by_jti_hash` of a row, over
runs of `AuthService`, and the lineage of rotations that the second column spells. -/

namespace LogLens
open LabelledMachine PointerChains

/-- The `jti_hash` a row is replaced by. -/
def AuthTables.successor (t : AuthTables) (jtiHash : Str) : Option Str :=
  (t.refreshTokens jtiHash).bind RefreshToken.replacedByJtiHash

theorem AuthTables.successor_eq_some {t : AuthTables} {jtiHash next : Str} :
    t.successor jtiHash = some next ↔ ∃ row, t.refreshTokens jtiHash = some row ∧
      row.replacedByJtiHash = some next := by
  simp [AuthTables.successor, Option.bind_eq_some_iff]

/-- Every revoked row stays, with its `revoked_at` and `replaced_by_jti_hash`. -/
def RevokedKept (t t' : AuthTables) : Prop :=
  ∀ jtiHash row, t.refreshTokens jtiHash = some row → row.revokedAt ≠ none →
    ∃ row', t'.refreshTokens jtiHash = some row' ∧ row'.revokedAt = row.revokedAt ∧
      row'.replacedByJtiHash = row.replacedByJtiHash

/-- Both rows are of one user and one family. -/
def RefreshToken.SameOwner (row row' : RefreshToken) : Prop :=
  row'.userId = row.userId ∧ row'.familyId = row.familyId

theorem RefreshToken.SameOwner.symm {row row' : RefreshToken} (same : row.SameOwner row') :
    row'.SameOwner row := ⟨same.1.symm, same.2.symm⟩

theorem RefreshToken.SameOwner.trans {row row' row'' : RefreshToken} (first : row.SameOwner row')
    (second : row'.SameOwner row'') : row.SameOwner row'' :=
  ⟨second.1.trans first.1, second.2.trans first.2⟩

/-- Replaced rows are revoked, their successors are rows of the same owner, and the
successors never lead back. -/
structure Lineage (t : AuthTables) : Prop where
  revoked : ∀ jtiHash row, t.refreshTokens jtiHash = some row → row.replacedByJtiHash ≠ none →
    row.revokedAt ≠ none
  linked : ∀ jtiHash next row, t.refreshTokens jtiHash = some row →
    row.replacedByJtiHash = some next →
    ∃ row', t.refreshTokens next = some row' ∧ row.SameOwner row'
  acyclic : Acyclic t.successor

/-- What one request does to `refresh_tokens` when it leaves revoked rows alone; `owner`
relates a row to the one that replaces it. -/
inductive KeepingStep (owner : RefreshToken → RefreshToken → Prop) (t : AuthTables) :
    AuthTables → Prop
  | same {t' : AuthTables} : t'.refreshTokens = t.refreshTokens → KeepingStep owner t t'
  | issues {jtiHash : Str} {row : RefreshToken} : t.refreshTokens jtiHash = none →
    row.replacedByJtiHash = none → KeepingStep owner t (t.putToken jtiHash row)
  | revokes {jtiHash : Str} {row : RefreshToken} (revokedAt : Timestamp) :
    t.refreshTokens jtiHash = some row → row.revokedAt = none →
    KeepingStep owner t (t.revokeToken jtiHash row revokedAt none)
  | rotates {jtiHash next : Str} {row fresh : RefreshToken} (revokedAt : Timestamp) :
    t.refreshTokens jtiHash = some row → row.revokedAt = none →
    t.refreshTokens next = none → owner row fresh → fresh.replacedByJtiHash = none →
    KeepingStep owner t ((t.revokeToken jtiHash row revokedAt (some next)).putToken next fresh)
  | revokesAll {condition : RefreshToken → Bool} {values : RefreshToken → RefreshToken} :
    (∀ row, condition row = true → row.revokedAt = none) →
    (∀ row, row.SameOwner (values row) ∧ (values row).revokedAt ≠ none ∧
      (values row).replacedByJtiHash = row.replacedByJtiHash) →
    KeepingStep owner t (t.updateTokens condition values)

section Tables
variable {t t' t'' : AuthTables}

theorem revokedKept_of_eq (same : t'.refreshTokens = t.refreshTokens) : RevokedKept t t' := by
  intro jtiHash row here _
  exact ⟨row, by rw [same, here], rfl, rfl⟩

theorem RevokedKept.trans (first : RevokedKept t t') (second : RevokedKept t' t'') :
    RevokedKept t t'' := by
  intro jtiHash row here revoked
  obtain ⟨row', here', sameTime, sameSuccessor⟩ := first jtiHash row here revoked
  obtain ⟨row'', here'', sameTime', sameSuccessor'⟩ :=
    second jtiHash row' here' (by rwa [sameTime])
  exact ⟨row'', here'', sameTime'.trans sameTime, sameSuccessor'.trans sameSuccessor⟩

theorem vacant_of_put {jtiHash next : Str} {token : RefreshToken}
    (vacant : (t.putToken jtiHash token).refreshTokens next = none) :
    t.refreshTokens next = none := by
  by_cases own : next = jtiHash
  · simp [own] at vacant
  · rwa [t.putToken_of_ne own] at vacant

/-- A row that is not revoked may be written. -/
theorem revokedKept_put {jtiHash : Str}
    (free : ∀ row, t.refreshTokens jtiHash = some row → row.revokedAt = none)
    (token : RefreshToken) : RevokedKept t (t.putToken jtiHash token) := by
  intro jtiHash' row here revoked
  by_cases own : jtiHash' = jtiHash
  · subst own
    exact absurd (free row here) revoked
  · exact ⟨row, by rw [t.putToken_of_ne own, here], rfl, rfl⟩

theorem KeepingStep.revokedKept {owner : RefreshToken → RefreshToken → Prop}
    (step : KeepingStep owner t t') : RevokedKept t t' := by
  have live {jtiHash : Str} {row : RefreshToken} (here : t.refreshTokens jtiHash = some row)
      (unrevoked : row.revokedAt = none) (row' : RefreshToken)
      (here' : t.refreshTokens jtiHash = some row') : row'.revokedAt = none := by
    rw [here, Option.some.injEq] at here'
    exact here' ▸ unrevoked
  cases step with
  | same same => exact revokedKept_of_eq same
  | issues vacant _ => exact revokedKept_put (by simp [vacant]) _
  | revokes _ here unrevoked => exact revokedKept_put (live here unrevoked) _
  | @rotates jtiHash next _ _ _ here unrevoked vacant _ _ =>
    have apart : next ≠ jtiHash := by
      rintro rfl
      simp [vacant] at here
    refine (revokedKept_put (live here unrevoked) _).trans (revokedKept_put ?_ _)
    simp [AuthTables.putToken_of_ne _ apart, vacant]
  | revokesAll unrevoked _ =>
    intro jtiHash row here revoked
    refine ⟨row, ?_, rfl, rfl⟩
    rw [AuthTables.updateTokens_some _ here, if_neg fun touched => revoked (unrevoked row touched)]

/-- `revoke_token` without a successor keeps a revoked row only where it changes nothing. -/
theorem revokedKept_revoke {jtiHash : Str} {row : RefreshToken} {revokedAt : Timestamp}
    (here : t.refreshTokens jtiHash = some row) (revoked : row.revokedAt ≠ none)
    (kept : RevokedKept t (t.revokeToken jtiHash row revokedAt none)) :
    row.revokedAt = some revokedAt ∧ row.replacedByJtiHash = none := by
  obtain ⟨row', here', sameTime, sameSuccessor⟩ := kept jtiHash row here revoked
  rw [AuthTables.revokeToken, AuthTables.putToken_self, Option.some.injEq] at here'
  subst here'
  exact ⟨sameTime.symm, sameSuccessor.symm⟩

theorem RevokedKept.successor (kept : RevokedKept t t') (lineage : Lineage t) {jtiHash next : Str}
    (replaced : t.successor jtiHash = some next) : t'.successor jtiHash = some next := by
  obtain ⟨row, here, named⟩ := AuthTables.successor_eq_some.mp replaced
  obtain ⟨row', here', -, same⟩ :=
    kept jtiHash row here (lineage.revoked jtiHash row here (by simp [named]))
  exact AuthTables.successor_eq_some.mpr ⟨row', here', same.trans named⟩

/-- What a row may become without a new successor. -/
structure Thins (row row' : RefreshToken) : Prop where
  owner : row.SameOwner row'
  successor : row'.replacedByJtiHash = none ∨ row'.replacedByJtiHash = row.replacedByJtiHash
  revoked : row'.replacedByJtiHash ≠ none → row.revokedAt ≠ none → row'.revokedAt ≠ none

theorem Thins.refl (row : RefreshToken) : Thins row row := ⟨⟨rfl, rfl⟩, .inr rfl, fun _ h => h⟩

theorem thins_revoke (row : RefreshToken) (revokedAt : Timestamp) :
    Thins row (row.revoke revokedAt none) := ⟨⟨rfl, rfl⟩, .inl rfl, fun h => absurd rfl h⟩

/-- Rows that stay, with their owner and with their successor or none, keep the lineage. -/
theorem Lineage.thin (lineage : Lineage t)
    (rows : ∀ jtiHash, Option.Rel Thins (t.refreshTokens jtiHash) (t'.refreshTokens jtiHash)) :
    Lineage t' := by
  have before {jtiHash : Str} {row' : RefreshToken}
      (here' : t'.refreshTokens jtiHash = some row') :
      ∃ row, t.refreshTokens jtiHash = some row ∧ Thins row row' := by
    have related := rows jtiHash
    rw [here'] at related
    generalize t.refreshTokens jtiHash = found at related
    cases related with
    | some thins => exact ⟨_, rfl, thins⟩
  have after {jtiHash : Str} {row : RefreshToken} (here : t.refreshTokens jtiHash = some row) :
      ∃ row', t'.refreshTokens jtiHash = some row' ∧ row.SameOwner row' := by
    have related := rows jtiHash
    rw [here] at related
    generalize t'.refreshTokens jtiHash = found at related
    cases related with
    | some thins => exact ⟨_, rfl, thins.owner⟩
  have named {row row' : RefreshToken} {next : Str} (thins : Thins row row')
      (replaced : row'.replacedByJtiHash = some next) : row.replacedByJtiHash = some next := by
    obtain none | same := thins.successor
    · simp [replaced] at none
    · rw [← same, replaced]
  refine ⟨?_, ?_, ?_⟩
  · intro jtiHash row' here' replaced
    obtain ⟨row, here, thins⟩ := before here'
    obtain ⟨next, some⟩ := Option.ne_none_iff_exists'.mp replaced
    exact thins.revoked replaced (lineage.revoked jtiHash row here (by simp [named thins some]))
  · intro jtiHash next row' here' replaced
    obtain ⟨row, here, thins⟩ := before here'
    obtain ⟨row₁, here₁, owner⟩ := lineage.linked jtiHash next row here (named thins replaced)
    obtain ⟨row₁', here₁', owner'⟩ := after here₁
    exact ⟨row₁', here₁', thins.owner.symm.trans (owner.trans owner')⟩
  · refine lineage.acyclic.drop fun jtiHash next replaced => ?_
    obtain ⟨row', here', some⟩ := AuthTables.successor_eq_some.mp replaced
    obtain ⟨row, here, thins⟩ := before here'
    exact AuthTables.successor_eq_some.mpr ⟨row, here, named thins some⟩

theorem Lineage.put_thin (lineage : Lineage t) {jtiHash : Str} {row row' : RefreshToken}
    (here : t.refreshTokens jtiHash = some row) (thins : Thins row row') :
    Lineage (t.putToken jtiHash row') := by
  refine lineage.thin fun jtiHash' => ?_
  by_cases own : jtiHash' = jtiHash
  · subst own
    rw [here, AuthTables.putToken_self]
    exact .some thins
  · rw [AuthTables.putToken_of_ne _ own]
    cases t.refreshTokens jtiHash' with
    | none => exact .none
    | some row => exact .some (.refl row)

/-- A new row with no successor. -/
theorem Lineage.insert (lineage : Lineage t) {jtiHash : Str} {row : RefreshToken}
    (vacant : t.refreshTokens jtiHash = none) (first : row.replacedByJtiHash = none) :
    Lineage (t.putToken jtiHash row) := by
  have older {jtiHash' next : Str} {row' : RefreshToken}
      (here : (t.putToken jtiHash row).refreshTokens jtiHash' = some row')
      (replaced : row'.replacedByJtiHash = some next) :
      t.refreshTokens jtiHash' = some row' := by
    by_cases own : jtiHash' = jtiHash
    · subst own
      rw [AuthTables.putToken_self, Option.some.injEq] at here
      simp [← here, first] at replaced
    · rwa [AuthTables.putToken_of_ne _ own] at here
  refine ⟨?_, ?_, ?_⟩
  · intro jtiHash' row' here replaced
    obtain ⟨next, some⟩ := Option.ne_none_iff_exists'.mp replaced
    exact lineage.revoked jtiHash' row' (older here some) replaced
  · intro jtiHash' next row' here replaced
    obtain ⟨row₁, here₁, owner⟩ := lineage.linked jtiHash' next row' (older here replaced) replaced
    have other : next ≠ jtiHash := by
      rintro rfl
      simp [vacant] at here₁
    exact ⟨row₁, by rw [AuthTables.putToken_of_ne _ other, here₁], owner⟩
  · refine lineage.acyclic.drop fun jtiHash' next replaced => ?_
    obtain ⟨row', here, some⟩ := AuthTables.successor_eq_some.mp replaced
    exact AuthTables.successor_eq_some.mpr ⟨row', older here some, some⟩

/-- A row is replaced by one of the same owner that has no successor. -/
theorem Lineage.replace (lineage : Lineage t) {jtiHash next : Str} {row fresh : RefreshToken}
    {revokedAt : Timestamp} (here : t.refreshTokens jtiHash = some row)
    (there : t.refreshTokens next = some fresh) (apart : next ≠ jtiHash)
    (owner : row.SameOwner fresh) (first : fresh.replacedByJtiHash = none) :
    Lineage (t.revokeToken jtiHash row revokedAt (some next)) := by
  unfold AuthTables.revokeToken
  have unchanged := t.putToken_of_ne apart (row.revoke revokedAt (some next))
  refine ⟨?_, ?_, ?_⟩
  · intro jtiHash' row' here' replaced
    by_cases own : jtiHash' = jtiHash
    · subst own
      rw [AuthTables.putToken_self, Option.some.injEq] at here'
      simp [← here', RefreshToken.revoke]
    · rw [AuthTables.putToken_of_ne _ own] at here'
      exact lineage.revoked jtiHash' row' here' replaced
  · intro jtiHash' next' row' here' replaced
    by_cases own : jtiHash' = jtiHash
    · subst own
      rw [AuthTables.putToken_self, Option.some.injEq] at here'
      subst here'
      cases replaced
      exact ⟨fresh, unchanged.trans there, owner⟩
    · rw [AuthTables.putToken_of_ne _ own] at here'
      obtain ⟨row₁, here₁, owner₁⟩ := lineage.linked jtiHash' next' row' here' replaced
      by_cases target : next' = jtiHash
      · subst target
        cases here.symm.trans here₁
        exact ⟨_, AuthTables.putToken_self _ _ _, owner₁⟩
      · exact ⟨row₁, by rw [AuthTables.putToken_of_ne _ target, here₁], owner₁⟩
  · have ends : (t.putToken jtiHash (row.revoke revokedAt (some next))).successor next = none := by
      simp [AuthTables.successor, unchanged, there, first]
    refine lineage.acyclic.link ends fun jtiHash' next' replaced other => ?_
    obtain ⟨row', here', some⟩ := AuthTables.successor_eq_some.mp replaced
    by_cases own : jtiHash' = jtiHash
    · subst own
      rw [AuthTables.putToken_self, Option.some.injEq] at here'
      subst here'
      cases some
      exact absurd rfl other
    · rw [AuthTables.putToken_of_ne _ own] at here'
      exact AuthTables.successor_eq_some.mpr ⟨row', here', some⟩

theorem Lineage.step (lineage : Lineage t) (step : KeepingStep RefreshToken.SameOwner t t') :
    Lineage t' := by
  cases step with
  | same same =>
    refine lineage.thin fun jtiHash => ?_
    rw [same]
    cases t.refreshTokens jtiHash with
    | none => exact .none
    | some row => exact .some (.refl row)
  | issues vacant first => exact lineage.insert vacant first
  | revokes revokedAt here _ => exact lineage.put_thin here (thins_revoke _ _)
  | @rotates jtiHash next row fresh revokedAt here _ vacant owner first =>
    have apart : next ≠ jtiHash := by
      rintro rfl
      simp [vacant] at here
    have commuted : (t.revokeToken jtiHash row revokedAt (some next)).putToken next fresh =
        (t.putToken next fresh).revokeToken jtiHash row revokedAt (some next) := by
      unfold AuthTables.revokeToken AuthTables.putToken
      rw [Function.update_comm apart]
    rw [commuted]
    refine (lineage.insert vacant first).replace ?_ (t.putToken_self _ _) apart owner first
    rw [t.putToken_of_ne apart.symm, here]
  | @revokesAll condition values _ kept =>
    refine lineage.thin fun jtiHash => ?_
    cases here : t.refreshTokens jtiHash with
    | none => simp [AuthTables.updateTokens, here]
    | some row =>
      rw [AuthTables.updateTokens_some _ here]
      refine .some ?_
      obtain ⟨owner, revoked, successor⟩ := kept row
      split
      · exact ⟨owner, .inr successor, fun _ _ => revoked⟩
      · exact .refl row

/-- A chain of successors is of one user and one family. -/
theorem Lineage.owner (lineage : Lineage t) {jtiHash last : Str} {row : RefreshToken}
    (chain : Leads t.successor jtiHash last) (here : t.refreshTokens jtiHash = some row) :
    ∃ row', t.refreshTokens last = some row' ∧ row.SameOwner row' := by
  refine chain.invariant (P := fun jtiHash => ∃ row', t.refreshTokens jtiHash = some row' ∧
    row.SameOwner row') (fun a b replaced => ?_) ⟨row, here, rfl, rfl⟩
  rintro ⟨row', here', owner⟩
  obtain ⟨row₁, here₁, some⟩ := AuthTables.successor_eq_some.mp replaced
  cases here'.symm.trans here₁
  obtain ⟨row₂, here₂, owner₂⟩ := lineage.linked a b row' here' some
  exact ⟨row₂, here₂, owner.trans owner₂⟩

end Tables

section Requests
variable [Platform] {τ ρ : Type} [TokenLibrary τ] (settings : Settings)
  (limiter : LoginRateLimiter ρ)

/-- The record a refresh finds, and when it checks the row. -/
inductive Presents (s : AuthRun τ ρ) : AuthOp τ → TokenRecord → Timestamp → Prop
  | refresh {token : τ} {readings : Readings} {uuids : Uuids} {record : TokenRecord} :
    getRefreshTokenRecord settings readings.start token s.tables = .ok record →
    Presents s (.refreshSession token readings uuids) record readings.check

/-- The row, expired at the check although its token was decoded, was revoked at another
time or has a successor. -/
def Rewrites (s : AuthRun τ ρ) (op : AuthOp τ) : Prop :=
  ∃ record now, Presents settings s op record now ∧ record.token.expiresAt ≤ now ∧
    record.token.revokedAt ≠ none ∧
    ¬ (record.token.revokedAt = some now ∧ record.token.replacedByJtiHash = none)

variable {settings limiter} {owner : RefreshToken → RefreshToken → Prop}

theorem issueTokenPair_step (user : User) (readings : Readings) (uuids : Uuids)
    (t : AuthTables) :
    KeepingStep owner t (issueTokenPair (τ := τ) settings user readings uuids t).2 := by
  unfold issueTokenPair
  simp only
  split
  · exact .same rfl
  · rename_i created
    obtain ⟨vacant, written⟩ := t.createToken_ok created
    rw [written]
    exact .issues vacant rfl

theorem loginUser_step (payload : LoginRequest) (rateLimitKey : Str) (readings : Readings)
    (uuids : Uuids) (t : AuthTables) (store : ρ) :
    KeepingStep owner t (loginUser (τ := τ) settings limiter payload rateLimitKey readings
      uuids t store).2.1 := by
  unfold loginUser
  split
  · exact .same rfl
  · simp only
    split
    · exact .same rfl
    · split
      · split
        · exact issueTokenPair_step _ _ _ _
        · exact .same rfl
      · exact .same rfl

theorem rotateToken_step {record : TokenRecord} {user : User} {readings : Readings}
    (uuids : Uuids) {t : AuthTables} (here : t.refreshTokens record.jtiHash = some record.token)
    (live : record.token.revokedAt = none)
    (owned : ∀ fresh, fresh.userId = user.id → fresh.familyId = record.familyId →
      owner record.token fresh) :
    KeepingStep owner t (rotateToken (τ := τ) settings record user readings uuids t).2 := by
  unfold rotateToken
  simp only
  split
  · exact .same rfl
  · rename_i created
    obtain ⟨vacant, written⟩ := AuthTables.createToken_ok _ created
    rw [written]
    exact .rotates _ here live (vacant_of_put vacant) (owned _ rfl rfl) rfl

omit [Platform] in
/-- `revoke_token` on a row that expired while its token is still decoded. -/
theorem expired_step {t : AuthTables} {jtiHash : Str} {row : RefreshToken} {now : Timestamp}
    (here : t.refreshTokens jtiHash = some row)
    (clear : row.revokedAt = none ∨ row.revokedAt = some now ∧ row.replacedByJtiHash = none) :
    KeepingStep owner t (t.revokeToken jtiHash row now none) := by
  obtain live | ⟨sameTime, first⟩ := clear
  · exact .revokes now here live
  · have written : row.revoke now none = row := by
      unfold RefreshToken.revoke
      rw [← sameTime, ← first]
    refine .same ?_
    simp [AuthTables.revokeToken, AuthTables.putToken, written, here]

theorem refreshSession_step {s : AuthRun τ ρ} {token : τ} {readings : Readings} {uuids : Uuids}
    (clear : ¬ Rewrites settings s (.refreshSession token readings uuids))
    (owned : ∀ record now fresh,
      Presents settings s (.refreshSession token readings uuids) record now →
      fresh.userId = record.userId → fresh.familyId = record.familyId →
      owner record.token fresh) :
    KeepingStep owner s.tables (refreshSession settings token readings uuids s.tables).2 := by
  unfold refreshSession
  cases found : getRefreshTokenRecord settings readings.start token s.tables with
  | error e => exact .same rfl
  | ok record =>
    obtain ⟨here, -⟩ := getRefreshTokenRecord_ok settings found
    by_cases expired : record.token.expiresAt ≤ readings.check
    · simp only [if_pos expired]
      refine expired_step here ?_
      by_contra changed
      rw [not_or] at changed
      exact clear ⟨record, _, .refresh found, expired, changed⟩
    simp only [if_neg expired]
    cases revoked : record.token.revokedAt with
    | some revokedAt =>
      simp only [Option.isSome_some, if_true]
      split
      · refine .revokesAll (fun row live => ?_) fun row => ⟨⟨rfl, rfl⟩, by rintro ⟨⟩, rfl⟩
        simp only [RefreshToken.liveInFamily, Bool.and_eq_true, Option.isNone_iff_eq_none] at live
        exact live.2
      · exact .same rfl
    | none =>
      simp only [Option.isSome_none, Bool.false_eq_true, if_false]
      cases loaded : s.tables.getById record.userId with
      | none => exact .same rfl
      | some user =>
        simp only
        split
        · refine rotateToken_step uuids here revoked fun fresh sameUser sameFamily => ?_
          exact owned record _ fresh (.refresh found)
            (sameUser.trans (AuthTables.getById_some loaded).2) sameFamily
        · exact .same rfl

theorem logout_step (token : τ) (readings : Readings) (t : AuthTables) :
    KeepingStep owner t (logout settings token readings t).2 := by
  unfold logout
  split
  · exact .same rfl
  · rename_i record found
    obtain ⟨here, -⟩ := getRefreshTokenRecord_ok settings found
    split
    · rename_i live
      exact .revokes _ here (Option.isNone_iff_eq_none.mp live)
    · exact .same rfl

omit [Platform] in
theorem logoutAll_step (userId : Nat) (readings : Readings) (t : AuthTables) :
    KeepingStep owner t (logoutAll userId readings t) := by
  refine .revokesAll (fun row live => ?_) fun row => ⟨⟨rfl, rfl⟩, by rintro ⟨⟩, rfl⟩
  simp only [RefreshToken.liveForUser, Bool.and_eq_true, Option.isNone_iff_eq_none] at live
  exact live.2

/-- Every request leaves revoked rows alone, but for a refresh that writes over one. -/
theorem apply_step {s : AuthRun τ ρ} {op : AuthOp τ} (clear : ¬ Rewrites settings s op)
    (owned : ∀ record now fresh, Presents settings s op record now →
      fresh.userId = record.userId → fresh.familyId = record.familyId →
      owner record.token fresh) :
    KeepingStep owner s.tables (s.apply settings limiter op).tables := by
  cases op with
  | registerUser payload hashed => exact .same (registerUser_tokens payload hashed _)
  | loginUser payload rateLimitKey readings uuids => exact loginUser_step _ _ _ _ _ _
  | refreshSession token readings uuids => exact refreshSession_step clear owned
  | logout token readings => exact logout_step token readings _
  | logoutAll userId readings => exact logoutAll_step userId readings _
  | updateUserStatus userId isActive => exact .same (updateUserStatus_tokens userId isActive _)

variable (limiter) in
/-- The refresh that writes over a revoked row. -/
theorem apply_rewrites {s : AuthRun τ ρ} {op : AuthOp τ} (rewrites : Rewrites settings s op) :
    ∃ jtiHash row revokedAt, s.tables.refreshTokens jtiHash = some row ∧ row.revokedAt ≠ none ∧
      ¬ (row.revokedAt = some revokedAt ∧ row.replacedByJtiHash = none) ∧
      (s.apply settings limiter op).tables =
        s.tables.revokeToken jtiHash row revokedAt none := by
  obtain ⟨record, now, presents, expired, revoked, changed⟩ := rewrites
  cases presents with
  | @refresh token readings uuids _ found =>
    refine ⟨_, _, _, (getRefreshTokenRecord_ok settings found).1, revoked, changed, ?_⟩
    simp only [AuthRun.apply, refreshSession, found, if_pos expired]

theorem revokedKept_iff {s : AuthRun τ ρ} {op : AuthOp τ} :
    RevokedKept s.tables (s.apply settings limiter op).tables ↔ ¬ Rewrites settings s op := by
  constructor
  · intro kept rewrites
    obtain ⟨jtiHash, row, revokedAt, here, revoked, changed, written⟩ :=
      apply_rewrites limiter rewrites
    rw [written] at kept
    exact changed (revokedKept_revoke here revoked kept)
  · intro clear
    have step : KeepingStep (fun _ _ => True) s.tables (s.apply settings limiter op).tables :=
      apply_step clear fun _ _ _ _ _ _ => trivial
    exact step.revokedKept

/-- What a run that writes over no revoked row keeps. -/
theorem run_revokedKept {s u : AuthRun τ ρ} {ops : List (AuthOp τ)}
    (meets : Meets (authMachine settings limiter) (fun s op => ¬ Rewrites settings s op) s ops)
    (ran : (authMachine settings limiter).run s ops = some u) :
    RevokedKept s.tables u.tables := by
  have reached : Reach (authMachine settings limiter) _ (· = s) u :=
    Reach.of_run (.start rfl) meets ran
  refine reached.invariant (I := fun u => RevokedKept s.tables u.tables) ?_ ?_
  · rintro _ rfl
    exact revokedKept_of_eq rfl
  · rintro v w op kept clear moved
    cases moved
    exact kept.trans (revokedKept_iff.mpr clear)

/-- The row of a record found in a run is of the owner that its token names. -/
theorem AuthInvariant.owned {s : AuthRun τ ρ} (holds : AuthInvariant settings s) {op : AuthOp τ}
    (assumed : Assumed settings s op) {record : TokenRecord} {now : Timestamp}
    (presents : Presents settings s op record now) {fresh : RefreshToken}
    (sameUser : fresh.userId = record.userId) (sameFamily : fresh.familyId = record.familyId) :
    record.token.SameOwner fresh := by
  cases presents with
  | @refresh token readings uuids _ found =>
    refine ⟨sameUser.trans (getRefreshTokenRecord_ok settings found).2.symm, ?_⟩
    obtain ⟨d, issued, rfl⟩ | unknown := holds.presented assumed.2.2
    · obtain ⟨row, here, state⟩ := holds.rows d issued
      rw [holds.record issued here] at found
      split at found <;> cases found
      exact sameFamily.trans state.familyId.symm
    · rw [unknown] at found
      cases found

theorem AuthInvariant.lineage {s : AuthRun τ ρ} (holds : AuthInvariant settings s)
    (lineage : Lineage s.tables) {op : AuthOp τ} (assumed : Assumed settings s op) :
    Lineage (s.apply settings limiter op).tables := by
  by_cases rewrites : Rewrites settings s op
  · obtain ⟨jtiHash, row, revokedAt, here, -, -, written⟩ :=
      apply_rewrites limiter rewrites
    rw [written]
    exact lineage.put_thin here (thins_revoke row revokedAt)
  · exact lineage.step (apply_step rewrites fun _ _ _ presents => holds.owned assumed presents)

omit [Platform] [TokenLibrary τ] in
theorem lineage_initial {s : AuthRun τ ρ} (initial : s.Initial) : Lineage s.tables := by
  have vacant (jtiHash : Str) : s.tables.refreshTokens jtiHash = none := by rw [initial.2.1]
  refine ⟨?_, ?_, acyclic_of_none fun jtiHash => ?_⟩
  · simp [vacant]
  · simp [vacant]
  · simp [AuthTables.successor, vacant]

theorem reach_lineage {s : AuthRun τ ρ}
    (reached : Reach (authMachine settings limiter) (Assumed settings) AuthRun.Initial s) :
    Lineage s.tables :=
  And.right <| reached.invariant (I := fun s => AuthInvariant settings s ∧ Lineage s.tables)
    (fun s initial => ⟨authInvariant_initial initial, lineage_initial initial⟩)
    fun s t op holds assumed moved => by
      cases moved
      exact ⟨holds.1.next assumed, holds.1.lineage holds.2 assumed⟩

/-- A request leaves the revoked rows as they were exactly when it is not such a refresh,
and so does a run of such requests. In every run the lineage is of one user and one family
and never leads back, and it survives the requests that leave revoked rows alone. -/
theorem revocation_written_once_iff (settings : Settings) (limiter : LoginRateLimiter ρ)
    (s : AuthRun τ ρ) :
    (∀ op, RevokedKept s.tables (s.apply settings limiter op).tables ↔
      ¬ Rewrites settings s op) ∧
    (∀ ops u, (authMachine settings limiter).run s ops = some u →
      Meets (authMachine settings limiter) (fun s op => ¬ Rewrites settings s op) s ops →
      RevokedKept s.tables u.tables) ∧
    (Reach (authMachine settings limiter) (Assumed settings) AuthRun.Initial s →
      (∀ jtiHash last row, Leads s.tables.successor jtiHash last →
        s.tables.refreshTokens jtiHash = some row →
        ∃ row', s.tables.refreshTokens last = some row' ∧ row.SameOwner row') ∧
      Acyclic s.tables.successor ∧
      ∀ t, RevokedKept s.tables t → ∀ jtiHash last, Leads s.tables.successor jtiHash last →
        Leads t.successor jtiHash last) := by
  refine ⟨fun op => revokedKept_iff, fun ops u ran meets => run_revokedKept meets ran, ?_⟩
  intro reached
  have lineage := reach_lineage reached
  refine ⟨?_, lineage.acyclic, ?_⟩
  · intro jtiHash last row chain here
    exact lineage.owner chain here
  · intro t kept jtiHash last chain
    exact chain.mono fun a b => kept.successor lineage

end Requests

/-- The rotated token of `rotatedOnce` once more. -/
def presentedAgain (now : Timestamp) : AuthOp (Claims × Str) :=
  .refreshSession (familyToken 'a' 0) (readingsAt now) ⟨repeatedUuid 'c', repeatedUuid 'g'⟩

theorem presentedAgain_assumed {now : Timestamp} (later : 1 ≤ now) :
    let _ := asciiPlatform
    let _ := openLibrary
    ∀ s, (authMachine sharedSecret noLimiter).run { tables := {}, store := (), now := 0 }
        rotatedOnce = some s → Assumed sharedSecret s (presentedAgain now) := by
  rintro _ _ _ ⟨⟩
  refine ⟨later, by decide, fun _ _ _ => ?_⟩
  exact ⟨_, List.mem_cons_of_mem _ List.mem_cons_self, _, rfl, .inr rfl⟩

theorem revocation_written_once_rotatedOnce :
    let _ := asciiPlatform
    let _ := openLibrary
    ∃ s, (authMachine sharedSecret noLimiter).run { tables := {}, store := (), now := 0 }
        rotatedOnce = some s ∧
      s.tables.successor (hashRefreshTokenIdentifier (repeatedUuid 'a').text) =
        some (hashRefreshTokenIdentifier (repeatedUuid 'b').text) ∧
      Acyclic s.tables.successor ∧
      RevokedKept s.tables (s.apply sharedSecret noLimiter (presentedAgain 2)).tables := by
  intro _ _
  obtain ⟨s, ran⟩ : ∃ s, (authMachine sharedSecret noLimiter).run
      { tables := {}, store := (), now := 0 } rotatedOnce = some s := ⟨_, rfl⟩
  have reached := rotatedOnce_reach s ran
  obtain ⟨each, -, lineage⟩ := revocation_written_once_iff sharedSecret noLimiter s
  cases ran
  refine ⟨_, rfl, rfl, (lineage reached).2.1, (each _).mpr ?_⟩
  rintro ⟨record, now, presents, expired, -⟩
  cases presents with
  | refresh found =>
    cases found
    exact absurd expired (by decide)

/-- The rotated token is presented again in the second in which it expires. -/
theorem revocation_written_once_fails :
    let _ := asciiPlatform
    let _ := openLibrary
    ¬ ∀ s : AuthRun (Claims × Str) Unit,
      Reach (authMachine sharedSecret noLimiter) (Assumed sharedSecret) AuthRun.Initial s →
      ∀ op, Assumed sharedSecret s op →
        RevokedKept s.tables (s.apply sharedSecret noLimiter op).tables := by
  intro _ _ always
  obtain ⟨s, ran⟩ : ∃ s, (authMachine sharedSecret noLimiter).run
      { tables := {}, store := (), now := 0 } rotatedOnce = some s := ⟨_, rfl⟩
  have reached := rotatedOnce_reach s ran
  have expiry : 1 ≤ lifetime 10080 := by decide
  have assumed := presentedAgain_assumed expiry s ran
  cases ran
  obtain ⟨row, here, -, same⟩ := always _ reached _ assumed
    (hashRefreshTokenIdentifier (repeatedUuid 'a').text) _ rfl (by rintro ⟨⟩)
  cases here
  cases same

end LogLens
