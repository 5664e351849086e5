import LogLens.GroupBookkeeping
import LogLens.Library.DelimitedJoin

/-! When two ingestions land in one error group. The fingerprint hashes the
components joined by `|`, and a component may contain `|`. -/

namespace LogLens
open LabelledMachine DelimitedJoin

section Components
variable [Platform]

/-- The components of the fingerprint that are free text. -/
def freeComponents (payload : LogIngestRequest) : List Str :=
  [normalizeMessage payload.message, Platform.lower (strip (payload.exceptionType.getD [])),
    normalizeStackTrace payload.stackTrace]

/-- Equal service and environment, and equal components one by one. -/
def Agree (p q : LogIngestRequest) : Prop :=
  p.serviceName = q.serviceName ∧ p.environment = q.environment ∧
    normalizeMessage p.message = normalizeMessage q.message ∧
    Platform.lower (strip (p.exceptionType.getD [])) =
      Platform.lower (strip (q.exceptionType.getD [])) ∧
    normalizeStackTrace p.stackTrace = normalizeStackTrace q.stackTrace

/-- Equal service and environment, and the same texts between the `|` characters,
but some component holds more of the `|` in one payload than in the other. -/
def BoundaryShifted (p q : LogIngestRequest) : Prop :=
  p.serviceName = q.serviceName ∧ p.environment = q.environment ∧
    (freeComponents p).flatMap (fields '|') = (freeComponents q).flatMap (fields '|') ∧
    (freeComponents p).map (List.count '|') ≠ (freeComponents q).map (List.count '|')

theorem agree_iff (p q : LogIngestRequest) :
    Agree p q ↔ p.serviceName = q.serviceName ∧ p.environment = q.environment ∧
      freeComponents p = freeComponents q := by
  simp [Agree, freeComponents]

theorem payloadFingerprint_eq (payload : LogIngestRequest) :
    payloadFingerprint payload = Platform.sha256Hex
      (join '|' (Platform.lower (strip payload.serviceName) :: freeComponents payload)) := by
  rw [payloadFingerprint, generateFingerprint, fingerprintParts, freeComponents, join, joinWith]

theorem payloadKey_eq_iff (injective : Function.Injective Platform.sha256Hex)
    (p q : LogIngestRequest) : payloadKey p = payloadKey q ↔
      p.serviceName = q.serviceName ∧ p.environment = q.environment ∧
        (freeComponents p).flatMap (fields '|') = (freeComponents q).flatMap (fields '|') := by
  unfold payloadKey
  rw [Prod.mk.injEq, Prod.mk.injEq]
  refine and_congr_right fun service => and_congr_right fun _ => ?_
  rw [payloadFingerprint_eq, payloadFingerprint_eq, injective.eq_iff,
    join_eq_iff '|' (List.cons_ne_nil _ _) (List.cons_ne_nil _ _), List.flatMap_cons,
    List.flatMap_cons, service, List.append_cancel_left_eq]

/-- Equal keys and agreement part exactly at the shifted boundaries. -/
theorem key_exact_iff (injective : Function.Injective Platform.sha256Hex)
    (p q : LogIngestRequest) :
    (payloadKey p = payloadKey q ↔ Agree p q) ↔ ¬ BoundaryShifted p q := by
  rw [payloadKey_eq_iff injective, agree_iff]
  constructor
  · rintro exact ⟨service, environment, same, counts⟩
    have equal := (exact.mp ⟨service, environment, same⟩).2.2
    exact counts (congrArg _ equal)
  · intro unshifted
    constructor
    · rintro ⟨service, environment, same⟩
      refine ⟨service, environment, eq_of_fields '|' same ?_⟩
      by_contra counts
      exact unshifted ⟨service, environment, same, counts⟩
    · rintro ⟨service, environment, equal⟩
      exact ⟨service, environment, congrArg _ equal⟩

/-- Two grouped logs carry one group id exactly when their payloads have one key. -/
theorem Bookkeeping.same_group_iff {s : LogRun} (holds : Bookkeeping s)
    {p q : LogIngestRequest × Log} (hp : p ∈ s.ingested) (hq : q ∈ s.ingested)
    (levelP : shouldGroup p.1.logLevel = true) (levelQ : shouldGroup q.1.logLevel = true) :
    p.2.errorGroupId = q.2.errorGroupId ↔ payloadKey p.1 = payloadKey q.1 := by
  obtain ⟨-, g, hg, boundP, keyP⟩ := (holds.origin p hp).grouped levelP
  obtain ⟨-, h, hh, boundQ, keyQ⟩ := (holds.origin q hq).grouped levelQ
  rw [boundP, boundQ, ← keyP, ← keyQ, Option.some.injEq]
  constructor
  · intro sameId
    rw [holds.eq_of_id hg hh sameId]
  · intro sameKey
    rw [holds.eq_of_key hg hh sameKey]

/-- Grouping is exact on a pair of payloads exactly when no boundary shifts between them. -/
theorem grouping_exact_iff (injective : Function.Injective Platform.sha256Hex) (s : LogRun)
    (reached : Reach logMachine Always LogRun.Initial s) (p q : LogIngestRequest × Log)
    (hp : p ∈ s.ingested) (hq : q ∈ s.ingested) (levelP : shouldGroup p.1.logLevel = true)
    (levelQ : shouldGroup q.1.logLevel = true) :
    (p.2.errorGroupId = q.2.errorGroupId ↔ Agree p.1 q.1) ↔ ¬ BoundaryShifted p.1 q.1 := by
  have holds := reach_bookkeeping reached
  rw [holds.same_group_iff hp hq levelP levelQ]
  exact key_exact_iff injective p.1 q.1

/-- An error-level request that no statement fails is committed. -/
theorem ingest_committed (s : LogRun) (payload : LogIngestRequest)
    (level : shouldGroup payload.logLevel = true) (aware : asUtcAware payload.timestamp ≠ none) :
    ∃ log, (s.apply (.ingestLog 0 none none payload)).ingested = (payload, log) :: s.ingested := by
  obtain ⟨log, t, ran⟩ := (ingestLog_ok_iff 0 none none s.tables level).mpr ⟨aware, rfl, rfl⟩
  refine ⟨log, ?_⟩
  rw [LogRun.apply, ran]
  rfl

end Components

theorem grouping_exact_repeatedError :
    letI := asciiPlatform
    ∃ p q, repeatedError.ingested = [p, q] ∧ p.2.errorGroupId = q.2.errorGroupId ∧
      ((p.2.errorGroupId = q.2.errorGroupId ↔ Agree p.1 q.1) ↔ ¬ BoundaryShifted p.1 q.1) :=
  letI := asciiPlatform
  ⟨_, _, rfl, rfl, grouping_exact_iff Function.injective_id repeatedError
    (reach_foldl _ (.start rfl)) _ _ (List.mem_cons_self ..)
    (List.mem_cons_of_mem _ (List.mem_cons_self ..)) rfl rfl⟩

/-- The message `a|b` without an exception type. -/
def barInMessage : LogIngestRequest :=
  { minimalRequest .error { clock := 0, utcoffset := none } with
    message := ['a', '|', 'b']
    message_length := by decide }

/-- The message `a` with the exception type `b|`. -/
def barInException : LogIngestRequest :=
  { minimalRequest .error { clock := 0, utcoffset := none } with
    message := ['a']
    message_length := by decide
    exceptionType := some ['b', '|']
    exceptionType_length := by decide }

theorem normalizeMessage_bar [P : Platform] :
    normalizeMessage barInMessage.message = ['a', '|', 'b'] ∧
    normalizeMessage barInException.message = ['a'] := by
  have left : ∀ c ∈ barInMessage.message, IsAscii c := isAscii_of_all rfl
  have right : ∀ c ∈ barInException.message, IsAscii c := isAscii_of_all rfl
  rw [normalizeMessage_congr P asciiPlatform left, normalizeMessage_congr P asciiPlatform right]
  decide

theorem exceptionType_bar [P : Platform] :
    Platform.lower (strip (barInMessage.exceptionType.getD [])) = [] ∧
    Platform.lower (strip (barInException.exceptionType.getD [])) = ['b', '|'] := by
  have left : ∀ c ∈ barInMessage.exceptionType.getD [], IsAscii c := isAscii_of_all rfl
  have right : ∀ c ∈ barInException.exceptionType.getD [], IsAscii c := isAscii_of_all rfl
  rw [strip_congr P asciiPlatform left, strip_congr P asciiPlatform right,
    P.lower_ascii _ (isAscii_of_all rfl), P.lower_ascii _ (isAscii_of_all rfl)]
  decide

/-- Under every Unicode table and every injective digest some run puts two
payloads with different components in one group. -/
theorem grouping_exact_bar :
    ¬ ∃ P : Platform, Function.Injective P.sha256Hex ∧
      ∀ s, Reach logMachine Always LogRun.Initial s → ∀ p ∈ s.ingested, ∀ q ∈ s.ingested,
        shouldGroup p.1.logLevel = true → shouldGroup q.1.logLevel = true →
        (p.2.errorGroupId = q.2.errorGroupId ↔ Agree p.1 q.1) := by
  rintro ⟨P, injective, exact⟩
  obtain ⟨log, first⟩ := ingest_committed {} barInMessage rfl (by decide)
  obtain ⟨log', second⟩ := ingest_committed
    (({} : LogRun).apply (.ingestLog 0 none none barInMessage)) barInException rfl (by decide)
  rw [first] at second
  have reached := reach_foldl [.ingestLog 0 none none barInMessage,
    .ingestLog 0 none none barInException] (.start rfl)
  have hp : (barInMessage, log) ∈ ((({} : LogRun).apply (.ingestLog 0 none none barInMessage)).apply
      (.ingestLog 0 none none barInException)).ingested := by simp [second]
  have hq : (barInException, log') ∈ ((({} : LogRun).apply
      (.ingestLog 0 none none barInMessage)).apply
      (.ingestLog 0 none none barInException)).ingested := by simp [second]
  have components : freeComponents barInMessage = [['a', '|', 'b'], [], []] ∧
      freeComponents barInException = [['a'], ['b', '|'], []] := by
    unfold freeComponents
    rw [normalizeMessage_bar.1, normalizeMessage_bar.2, exceptionType_bar.1, exceptionType_bar.2]
    exact ⟨rfl, rfl⟩
  have sameKey : payloadKey barInMessage = payloadKey barInException := by
    rw [payloadKey_eq_iff injective, components.1, components.2]
    exact ⟨rfl, rfl, by decide⟩
  have sameGroup := ((reach_bookkeeping reached).same_group_iff hp hq rfl rfl).mpr sameKey
  have agree := (exact _ reached _ hp _ hq rfl rfl).mp sameGroup
  rw [agree_iff, components.1, components.2] at agree
  exact absurd agree.2.2 (by decide)

end LogLens
