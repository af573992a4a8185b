import Ubiq.Contracts.Settling

/-!
# The attempts of an item

`next` counts the attempt, quarantines the item if there were too many, and returns it in the same
call. The item that goes beyond the limit is therefore returned once more, with its flag set.

A call stays within the limit exactly when the item that it finds has attempts left, and the
attempts of an item are the calls that returned it.
-/

namespace Ubiq.Contracts

open Foundation

namespace SemanticQueue

variable {capacity : Nat} {queue : SemanticQueue capacity} {index : Nat}

/-- The item that `next` finds in the queue at this time. -/
def Due (queue : SemanticQueue capacity) (nowMs index : Nat) (item : QueueItem) : Prop :=
  Foremost queue.policy nowMs queue.entries queue.entries.length index item

theorem returned_iff {nowMs : Nat} :
    (queue.perform (.next nowMs)).2 = .item index ↔ ∃ item, queue.Due nowMs index item := by
  unfold Due
  rw [← select_eq_some_iff]
  simp only [perform, next]
  cases hselect : select queue.policy nowMs queue.entries with
  | none => simp
  | some other =>
      obtain ⟨item, hforemost⟩ := select_eq_some_iff.mp hselect
      simp [hforemost.get]

/-- Only `next` returns items, and only items of the queue. -/
theorem next_of_returned {action : Action} (h : (queue.perform action).2 = .item index) :
    (∃ nowMs, action = .next nowMs) ∧ ∃ item, queue.entries[index]? = some item := by
  have heffect := effect_perform queue action
  rw [h] at heffect
  generalize (queue.perform action).1 = next at heffect
  cases heffect with
  | granted nowMs _ item hget => exact ⟨⟨nowMs, rfl⟩, item, hget⟩

/-! ## The limit -/

/-- An item that a call returns is not quarantined. -/
def ReturnsUnquarantined (queue : SemanticQueue capacity) (action : Action) : Prop :=
  ∀ index, (queue.perform action).2 = .item index →
    ∀ item, (queue.perform action).1.entries[index]? = some item → item.quarantined = false

/-- The item that `next` finds has attempts left. -/
def WithinLimit (queue : SemanticQueue capacity) : Action → Prop
  | .next nowMs => ∀ index item, queue.Due nowMs index item →
      item.attempts < queue.policy.maxAttempts
  | _ => True

/-- The number of calls that returned the item at an index. -/
def timesReturned (index : Nat) (calls : List (Action × Reply)) : Nat :=
  calls.countP fun call => call.2 = .item index

/-- No item is returned in quarantine, and none more often than the policy allows. -/
structure RespectsLimit (capacity : Nat) (policy : QueuePolicy) (actions : List Action) : Prop where
  unquarantined : Execution.Along (Execution.after perform) ReturnsUnquarantined
    (init capacity policy) actions
  limited : ∀ index, timesReturned index ((init capacity policy).history actions) ≤
    policy.maxAttempts

theorem quarantined_grant {item : QueueItem} {policy : QueuePolicy} {nowMs : Nat}
    (h : item.Available nowMs) :
    (item.grant policy nowMs).quarantined = false ↔ item.attempts < policy.maxAttempts := by
  have hopen : item.quarantined = false := Bool.eq_false_iff.mpr fun hset => h (.inl hset)
  simp [QueueItem.grant, hopen]

theorem returnsUnquarantined_iff (action : Action) :
    queue.ReturnsUnquarantined action ↔ queue.WithinLimit action := by
  cases action with
  | enqueue envelope =>
      refine iff_of_true (fun index hreply => ?_) trivial
      obtain ⟨⟨_, hnext⟩, -⟩ := next_of_returned hreply
      cases hnext
  | settle other =>
      refine iff_of_true (fun index hreply => ?_) trivial
      obtain ⟨⟨_, hnext⟩, -⟩ := next_of_returned hreply
      cases hnext
  | next nowMs =>
      have hgranted : ∀ index item, queue.Due nowMs index item →
          (queue.perform (.next nowMs)).1.entries[index]? =
            some (item.grant queue.policy nowMs) := by
        intro index item hdue
        obtain ⟨found, hget, -, hput⟩ := item_of_returned (returned_iff.mpr ⟨item, hdue⟩)
        obtain rfl := Option.some.inj (hdue.get.symm.trans hget)
        rw [hput]
        exact Slots.getElem?_put_self hget _
      constructor
      · intro h index item hdue
        exact (quarantined_grant hdue.available).mp
          (h index (returned_iff.mpr ⟨item, hdue⟩) _ (hgranted index item hdue))
      · intro h index hreply item hget
        obtain ⟨found, hdue⟩ := returned_iff.mp hreply
        obtain rfl := Option.some.inj ((hgranted index found hdue).symm.trans hget)
        exact (quarantined_grant hdue.available).mpr (h index found hdue)

/-! ## Counting -/

/-- The attempts of the item at an index. -/
def attemptsAt (queue : SemanticQueue capacity) (index : Nat) : Nat :=
  (queue.entries[index]?).elim 0 QueueItem.attempts

theorem attemptsAt_of_get {item : QueueItem} (h : queue.entries[index]? = some item) :
    queue.attemptsAt index = item.attempts := by
  simp [attemptsAt, h]

/-- A call counts as an attempt of the item that it returns and of no other. -/
theorem attemptsAt_perform (index : Nat) (action : Action) :
    (queue.perform action).1.attemptsAt index =
      queue.attemptsAt index + if (queue.perform action).2 = .item index then 1 else 0 := by
  cases hget : queue.entries[index]? with
  | some item =>
      obtain ⟨next, hnext, hitemStep⟩ := item_perform hget action
      rw [attemptsAt_of_get hnext, attemptsAt_of_get hget]
      generalize (queue.perform action).2 = reply at hitemStep
      cases hitemStep with
      | granted => simp [QueueItem.grant]
      | settled => simp [QueueItem.release]
      | untouched _ _ _ _ hreply => simp [hreply]
  | none =>
      have hreply : (queue.perform action).2 ≠ .item index := by
        intro hreply
        obtain ⟨-, item, hitem⟩ := next_of_returned hreply
        cases hget.symm.trans hitem
      have hzero : (queue.perform action).1.attemptsAt index = 0 := by
        cases hnext : (queue.perform action).1.entries[index]? with
        | none => simp [attemptsAt, hnext]
        | some next =>
            rw [attemptsAt_of_get hnext]
            rcases item_perform_inv hnext with ⟨item, hitem, -⟩ | hfresh
            · cases hget.symm.trans hitem
            · exact hfresh
      rw [hzero, if_neg hreply]
      simp [attemptsAt, hget]

/-- The attempts of an item are the calls that returned it. -/
theorem attemptsAt_after (queue : SemanticQueue capacity) (index : Nat) (actions : List Action) :
    (queue.after actions).attemptsAt index =
      queue.attemptsAt index + timesReturned index (queue.history actions) := by
  induction actions generalizing queue with
  | nil => rfl
  | cons action rest ih =>
      have hcount : timesReturned index (queue.history (action :: rest)) =
          timesReturned index ((queue.perform action).1.history rest) +
            if (queue.perform action).2 = .item index then 1 else 0 := by
        simp [timesReturned, history, Execution.after, List.countP_cons]
      rw [hcount, Nat.add_comm (timesReturned _ _), ← Nat.add_assoc, ← attemptsAt_perform]
      exact ih _

theorem attemptsAt_le_of_along {actions : List Action} {limit : Nat}
    (hlimit : queue.policy.maxAttempts = limit) (hstart : queue.attemptsAt index ≤ limit)
    (h : Execution.Along (Execution.after perform) WithinLimit queue actions) :
    (queue.after actions).attemptsAt index ≤ limit := by
  have hstep : ∀ (state : SemanticQueue capacity) (action : Action),
      state.policy.maxAttempts = limit ∧ state.attemptsAt index ≤ limit →
        state.WithinLimit action →
          (state.perform action).1.policy.maxAttempts = limit ∧
            (state.perform action).1.attemptsAt index ≤ limit := by
    rintro state action ⟨hpolicy, hle⟩ hwithin
    refine ⟨(congrArg QueuePolicy.maxAttempts (policy_perform state action)).trans hpolicy, ?_⟩
    rw [attemptsAt_perform]
    split_ifs with hreply
    · obtain ⟨⟨nowMs, rfl⟩, -⟩ := next_of_returned hreply
      obtain ⟨item, hdue⟩ := returned_iff.mp hreply
      have hless := hwithin index item hdue
      rw [attemptsAt_of_get hdue.get]
      omega
    · exact hle
  exact (Execution.invariant_run hstep ⟨hlimit, hstart⟩ h).2

/-- **The retry limit.** No item is returned in quarantine or too often exactly when every call to
`next` finds an item that has attempts left. -/
theorem respectsLimit_iff (capacity : Nat) (policy : QueuePolicy) (actions : List Action) :
    RespectsLimit capacity policy actions ↔
      Execution.Along (Execution.after perform) WithinLimit (init capacity policy) actions := by
  have hguards : Execution.Along (Execution.after perform) ReturnsUnquarantined
      (init capacity policy) actions ↔
        Execution.Along (Execution.after perform) WithinLimit (init capacity policy) actions :=
    Execution.along_iff (motive := fun _ => True) (fun _ _ _ _ => trivial)
      (fun _ action _ => returnsUnquarantined_iff action) trivial actions
  constructor
  · intro h
    exact hguards.mp h.unquarantined
  · intro h
    refine ⟨hguards.mpr h, fun index => ?_⟩
    have hstart : (init capacity policy).attemptsAt index = 0 := rfl
    have hle := attemptsAt_le_of_along rfl (hstart.trans_le (Nat.zero_le _)) h
    rw [attemptsAt_after, hstart, Nat.zero_add] at hle
    exact hle

/-- With one attempt allowed, the item is returned a second time after its lease, in quarantine. -/
theorem not_respectsLimit_second :
    ¬RespectsLimit 1 oneAttempt [.enqueue sampleEnvelope, .next 0, .next 10] := by
  intro h
  exact absurd (h.limited 0) (by decide +kernel)

end SemanticQueue
end Ubiq.Contracts
