import Mathlib.Data.List.Basic
import Mathlib.Data.List.Perm.Basic

/-! A broker with late acknowledgement. A message waits in the queue, is
scheduled for later, or is held by a delivery at work on it; a delivery keeps
its message until it acknowledges it. Each operation says, up to order, which
messages it leaves in flight. -/

namespace MessageBroker

structure Broker (μ ε : Type*) where
  queue : List μ := []
  scheduled : List μ := []
  deliveries : List (μ × ε) := []

variable {μ ε : Type*} (b : Broker μ ε)

/-- The messages in flight. -/
def Broker.messages : List μ := b.queue ++ (b.scheduled ++ b.deliveries.map Prod.fst)

/-- The messages in flight besides the one of delivery `n`. -/
def Broker.others (n : Nat) : List μ :=
  b.queue ++ (b.scheduled ++ (b.deliveries.eraseIdx n).map Prod.fst)

def Broker.send (m : μ) : Broker μ ε := { b with queue := b.queue ++ [m] }

/-- A worker takes a message up. -/
def Broker.deliver [DecidableEq μ] (m : μ) (start : ε) : Option (Broker μ ε) :=
  if m ∈ b.queue then
    some { b with queue := b.queue.erase m, deliveries := b.deliveries ++ [(m, start)] }
  else none

/-- The time of a scheduled message has come. -/
def Broker.due [DecidableEq μ] (m : μ) : Option (Broker μ ε) :=
  if m ∈ b.scheduled then
    some { b with scheduled := b.scheduled.erase m, queue := b.queue ++ [m] }
  else none

/-- The message of a delivery is queued again while the delivery goes on. -/
def Broker.redeliver (n : Nat) : Option (Broker μ ε) := b.deliveries[n]?.map fun d => b.send d.1

def Broker.advance (n : Nat) (m : μ) (e : ε) : Broker μ ε :=
  { b with deliveries := b.deliveries.set n (m, e) }

def Broker.acknowledge (n : Nat) : Broker μ ε :=
  { b with deliveries := b.deliveries.eraseIdx n }

/-- The worker of a delivery is lost. -/
def Broker.lose (n : Nat) : Option (Broker μ ε) :=
  b.deliveries[n]?.map fun d => (b.acknowledge n).send d.1

/-- A delivery ends, and a message is scheduled in its place. -/
def Broker.retry (n : Nat) (m : μ) : Broker μ ε :=
  { b.acknowledge n with scheduled := b.scheduled ++ [m] }

variable {b} {m : μ} {n : Nat} {d : μ × ε} {t : Broker μ ε}

theorem messages_send : (b.send m).messages.Perm (m :: b.messages) := by
  unfold Broker.send Broker.messages
  simp only [List.append_assoc, List.singleton_append]
  exact List.perm_middle

/-- A message taken out of one list and put at the end of the rest. -/
theorem erase_append_perm [DecidableEq μ] {l : List μ} (here : m ∈ l) (rest : List μ) :
    (l.erase m ++ (rest ++ [m])).Perm (l ++ rest) := by
  have front : (l.erase m ++ (rest ++ [m])).Perm (m :: (l.erase m ++ rest)) := by
    rw [← List.append_assoc]
    exact List.perm_append_singleton m _
  exact front.trans ((List.perm_cons_erase here).symm.append_right rest)

theorem messages_deliver [DecidableEq μ] {start : ε} (moved : b.deliver m start = some t) :
    t.messages.Perm b.messages := by
  unfold Broker.deliver at moved
  split at moved <;> cases moved
  rename_i here
  have taken := erase_append_perm here (b.scheduled ++ b.deliveries.map Prod.fst)
  simpa [Broker.messages] using taken

theorem deliveries_deliver [DecidableEq μ] {start : ε} (moved : b.deliver m start = some t) :
    t.deliveries = b.deliveries ++ [(m, start)] := by
  unfold Broker.deliver at moved
  split at moved <;> cases moved
  rfl

theorem deliveries_due [DecidableEq μ] (moved : b.due m = some t) :
    t.deliveries = b.deliveries := by
  unfold Broker.due at moved
  split at moved <;> cases moved
  rfl

theorem messages_due [DecidableEq μ] (moved : b.due m = some t) :
    t.messages.Perm b.messages := by
  unfold Broker.due at moved
  split at moved <;> cases moved
  rename_i here
  have taken := erase_append_perm here (b.deliveries.map Prod.fst)
  have moved : ([m] ++ (b.scheduled.erase m ++ b.deliveries.map Prod.fst)).Perm
      (b.scheduled.erase m ++ (b.deliveries.map Prod.fst ++ [m])) := by
    rw [← List.append_assoc _ _ [m]]
    exact List.perm_append_comm
  simpa [Broker.messages] using (moved.trans taken).append_left b.queue

/-- The messages in flight are those of the others and the delivery's own. -/
theorem messages_perm_others (here : b.deliveries[n]? = some d) :
    b.messages.Perm (d.1 :: b.others n) := by
  obtain ⟨inside, rfl⟩ := List.getElem?_eq_some_iff.mp here
  have split : (b.deliveries.map Prod.fst).Perm
      (b.deliveries[n].1 :: (b.deliveries.eraseIdx n).map Prod.fst) :=
    (List.getElem_cons_eraseIdx_perm inside).symm.map Prod.fst
  unfold Broker.messages Broker.others
  refine ((split.append_left b.scheduled).append_left b.queue).trans ?_
  exact (List.perm_middle.append_left b.queue).trans List.perm_middle

theorem mem_messages_of_mem (hd : d ∈ b.deliveries) : d.1 ∈ b.messages :=
  List.mem_append_right _ (List.mem_append_right _ (List.mem_map_of_mem hd))

theorem mem_messages (here : b.deliveries[n]? = some d) : d.1 ∈ b.messages :=
  (messages_perm_others here).mem_iff.mpr List.mem_cons_self

theorem messages_redeliver (moved : b.redeliver n = some t) :
    ∃ m ∈ b.messages, t.messages.Perm (m :: b.messages) := by
  unfold Broker.redeliver at moved
  obtain ⟨d, here, rfl⟩ := Option.map_eq_some_iff.mp moved
  exact ⟨d.1, mem_messages here, messages_send⟩

theorem deliveries_redeliver (moved : b.redeliver n = some t) : t.deliveries = b.deliveries := by
  unfold Broker.redeliver at moved
  obtain ⟨d, -, rfl⟩ := Option.map_eq_some_iff.mp moved
  rfl

theorem deliveries_lose (moved : b.lose n = some t) :
    t.deliveries = b.deliveries.eraseIdx n := by
  unfold Broker.lose at moved
  obtain ⟨d, -, rfl⟩ := Option.map_eq_some_iff.mp moved
  rfl

theorem messages_lose (moved : b.lose n = some t) : t.messages.Perm b.messages := by
  unfold Broker.lose at moved
  obtain ⟨d, here, rfl⟩ := Option.map_eq_some_iff.mp moved
  exact messages_send.trans (messages_perm_others here).symm

theorem messages_retry : (b.retry n m).messages.Perm (m :: b.others n) := by
  have last : ((b.scheduled ++ [m]) ++ (b.deliveries.eraseIdx n).map Prod.fst).Perm
      (m :: (b.scheduled ++ (b.deliveries.eraseIdx n).map Prod.fst)) := by
    rw [List.append_assoc]
    exact List.perm_middle
  exact (last.append_left b.queue).trans List.perm_middle

/-- A delivery that goes on keeps its message. -/
theorem messages_advance (here : b.deliveries[n]? = some d) (e : ε) :
    (b.advance n d.1 e).messages = b.messages := by
  unfold Broker.advance Broker.messages
  have same : (b.deliveries.set n (d.1, e)).map Prod.fst = b.deliveries.map Prod.fst := by
    refine List.ext_getElem? fun k => ?_
    rw [List.getElem?_map, List.getElem?_map, List.getElem?_set]
    split
    · rename_i own
      subst own
      split
      · rw [here]
        rfl
      · rename_i outside
        rw [List.getElem?_eq_none (Nat.le_of_not_lt outside), Option.map_none]
    · rfl
  rw [same]

end MessageBroker
