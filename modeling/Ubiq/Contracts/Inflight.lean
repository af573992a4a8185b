import Ubiq.Contracts.SemanticQueue

/-!
# Items under a lease

`next` reads the lease time, the attempts and the priority of the policy, but not `max_inflight`.
The number of leases that are active after a call is bounded by the capacity and by nothing else:
a queue with room for one more item than `max_inflight` has a run in which all of its items are
under a lease. The run asks at decreasing times, so that it works for every lease time.
-/

namespace Ubiq.Contracts
open Foundation
open Ubiq.Core (Envelope)

namespace QueueItem

/-- The item is not quarantined and its lease is active. -/
def Held (item : QueueItem) (nowMs : Nat) : Prop :=
  item.quarantined = false ∧ nowMs < item.leasedUntilMs

instance decidableHeld (item : QueueItem) (nowMs : Nat) : Decidable (item.Held nowMs) :=
  inferInstanceAs (Decidable (_ ∧ _))

/-- The item has not been returned yet. -/
def Fresh (item : QueueItem) : Prop :=
  item.attempts = 0 ∧ item.leasedUntilMs = 0 ∧ item.quarantined = false

instance decidableFresh (item : QueueItem) : Decidable item.Fresh :=
  inferInstanceAs (Decidable (_ ∧ _ ∧ _))

theorem Fresh.available {item : QueueItem} (h : item.Fresh) (nowMs : Nat) :
    item.Available nowMs := by
  obtain ⟨-, hexpired, hfree⟩ := h
  simp [Available, hexpired, hfree]

/-- The first lease of an item holds it before the time of the lease, whatever its length. -/
theorem Fresh.held_grant {item : QueueItem} (h : item.Fresh) {policy : QueuePolicy}
    (hattempts : 0 < policy.maxAttempts) (nowMs : Nat) :
    (item.grant policy (nowMs + 1)).Held nowMs := by
  constructor
  · simp only [grant, h.1, h.2.2, zero_add]
    exact if_neg (Nat.not_lt.mpr hattempts)
  · show nowMs < nowMs + 1 + policy.leaseMs
    omega

theorem not_fresh_grant (item : QueueItem) (policy : QueuePolicy) (nowMs : Nat) :
    ¬(item.grant policy nowMs).Fresh :=
  fun h => Nat.succ_ne_zero _ h.1

end QueueItem

namespace SemanticQueue

variable {capacity : Nat} {queue : SemanticQueue capacity}

/-- The number of items that are held. -/
def inflight (queue : SemanticQueue capacity) (nowMs : Nat) : Nat :=
  queue.entries.countP fun item => item.Held nowMs

/-- After every call to `next` at most `max_inflight` items are held. -/
def BoundedInflight (capacity : Nat) (policy : QueuePolicy) : Prop :=
  ∀ past nowMs, (reached capacity policy (past ++ [.next nowMs])).inflight nowMs ≤
    policy.maxInflight

/-- Without attempts every item that was returned is quarantined. -/
theorem inflight_eq_zero {policy : QueuePolicy} (h : policy.maxAttempts = 0)
    (actions : List Action) (nowMs : Nat) :
    (reached capacity policy actions).inflight nowMs = 0 := by
  have hall : ∀ item ∈ (reached capacity policy actions).entries,
      item.quarantined = true ∨ item.leasedUntilMs = 0 := by
    refine forall_reached (fun item => item.quarantined = true ∨ item.leasedUntilMs = 0)
      (fun _ => .inr rfl) ?_ (fun item _ => .inr rfl) actions
    intro item nowMs _ _
    left
    simp [QueueItem.grant, h]
  rw [inflight, List.countP_eq_zero]
  intro item hitem
  rcases hall item hitem with hquarantined | hexpired
  · simp [QueueItem.Held, hquarantined]
  · simp [QueueItem.Held, hexpired]

/-! ## A run that holds every item -/

/-- Every item is fresh or held at the time `nowMs`, and `nowMs` many are fresh. -/
structure Filling (queue : SemanticQueue capacity) (nowMs : Nat) : Prop where
  fresh_or_held : ∀ item ∈ queue.entries, item.Fresh ∨ item.Held nowMs
  count : queue.entries.countP (fun item => item.Fresh) = nowMs

/-- `next` at a positive time finds a fresh item and holds it. -/
theorem Filling.next {nowMs : Nat} (h : Filling queue (nowMs + 1))
    (hattempts : 0 < queue.policy.maxAttempts) :
    Filling (queue.perform (.next (nowMs + 1))).1 nowMs := by
  have heffect := effect_perform queue (.next (nowMs + 1))
  generalize (queue.perform (.next (nowMs + 1))).2 = reply at heffect
  generalize (queue.perform (.next (nowMs + 1))).1 = after at heffect ⊢
  cases heffect with
  | nothing _ hnone =>
      have hpositive : 0 < queue.entries.countP fun item => item.Fresh := by
        rw [h.count]
        exact nowMs.succ_pos
      obtain ⟨item, hitem, hfresh⟩ := List.countP_pos_iff.mp hpositive
      exact absurd ((of_decide_eq_true hfresh).available _) (hnone item hitem)
  | granted _ index item hget havailable =>
      have hfresh : item.Fresh :=
        (h.fresh_or_held item (List.mem_of_getElem? hget)).resolve_right
          fun hheld => havailable (.inr hheld.2)
      constructor
      · intro other hother
        rcases Slots.mem_put hother with rfl | hold
        · exact .inr (hfresh.held_grant hattempts nowMs)
        · rcases h.fresh_or_held other hold with hfresh | hheld
          · exact .inl hfresh
          · exact .inr ⟨hheld.1, Nat.lt_of_succ_lt hheld.2⟩
      · have hcount := Slots.countP_put hget (item.grant queue.policy (nowMs + 1))
          fun item => item.Fresh
        rw [h.count, if_pos (decide_eq_true hfresh),
          if_neg (by simpa using item.not_fresh_grant queue.policy (nowMs + 1))] at hcount
        exact Nat.succ.inj hcount

/-- The calls to `next` at the times from `nowMs` down to one. -/
def countdown : Nat → List Action
  | 0 => []
  | nowMs + 1 => .next (nowMs + 1) :: countdown nowMs

theorem Filling.countdown {nowMs : Nat} (h : Filling queue nowMs)
    (hattempts : 0 < queue.policy.maxAttempts) : Filling (queue.after (countdown nowMs)) 0 := by
  induction nowMs generalizing queue with
  | zero => exact h
  | succ nowMs ih =>
      have hpolicy := policy_perform queue (.next (nowMs + 1))
      exact ih (h.next hattempts) (hpolicy.symm ▸ hattempts)

/-- At the end of the countdown every item is held, and the last `next` finds nothing. -/
theorem Filling.inflight_next (h : Filling queue 0) :
    (queue.perform (.next 0)).1.inflight 0 = queue.entries.length := by
  have hheld : ∀ item ∈ queue.entries, item.Held 0 := by
    intro item hitem
    refine (h.fresh_or_held item hitem).resolve_left fun hfresh => ?_
    exact absurd (decide_eq_true hfresh) (List.countP_eq_zero.mp h.count item hitem)
  have heffect := effect_perform queue (.next 0)
  generalize (queue.perform (.next 0)).2 = reply at heffect
  generalize (queue.perform (.next 0)).1 = after at heffect ⊢
  cases heffect with
  | nothing =>
      rw [inflight, List.countP_eq_length]
      exact fun item hitem => decide_eq_true (hheld item hitem)
  | granted _ index item hget havailable =>
      exact absurd (.inr (hheld item (List.mem_of_getElem? hget)).2) havailable

theorem entries_enqueued (envelope : Envelope) (policy : QueuePolicy) {count : Nat}
    (h : count ≤ capacity) :
    (reached capacity policy (List.replicate count (.enqueue envelope))).entries =
      List.replicate count { envelope := envelope } := by
  induction count with
  | zero => rfl
  | succ count ih =>
      have hentries := ih (Nat.le_of_succ_le h)
      rw [List.replicate_succ', ← perform_reached, List.replicate_succ', ← hentries]
      have hfree : (reached capacity policy
          (List.replicate count (.enqueue envelope))).entries.length < capacity := by
        rw [hentries, List.length_replicate]
        exact h
      simp only [perform, enqueue, dif_pos hfree]
      rfl

theorem filling_enqueued (envelope : Envelope) (policy : QueuePolicy) {count : Nat}
    (h : count ≤ capacity) :
    Filling (reached capacity policy (List.replicate count (.enqueue envelope))) count := by
  have hfresh : (⟨envelope, 0, 0, false⟩ : QueueItem).Fresh := ⟨rfl, rfl, rfl⟩
  constructor
  · rw [entries_enqueued envelope policy h]
    intro item hitem
    rw [List.eq_of_mem_replicate hitem]
    exact .inl hfresh
  · rw [entries_enqueued envelope policy h, List.countP_replicate]
    simp [hfresh]

/-- The number of items does not change while the queue is polled. -/
theorem length_countdown (queue : SemanticQueue capacity) (nowMs : Nat) :
    (queue.after (countdown nowMs)).entries.length = queue.entries.length := by
  induction nowMs generalizing queue with
  | zero => rfl
  | succ nowMs ih =>
      refine (ih _).trans ?_
      have heffect := effect_perform queue (.next (nowMs + 1))
      show (queue.perform (.next (nowMs + 1))).1.entries.length = _
      generalize (queue.perform (.next (nowMs + 1))).2 = reply at heffect
      generalize (queue.perform (.next (nowMs + 1))).1 = after at heffect ⊢
      cases heffect with
      | nothing => rfl
      | granted => exact List.length_set

/-- **Leases are bounded by `max_inflight` exactly if the capacity is, or if the first attempt
quarantines.** -/
theorem boundedInflight_iff (capacity : Nat) (policy : QueuePolicy) :
    BoundedInflight capacity policy ↔
      capacity ≤ policy.maxInflight ∨ policy.maxAttempts = 0 := by
  constructor
  · intro hbounded
    by_contra hneither
    rw [not_or, not_le] at hneither
    obtain ⟨hroom, hattempts⟩ := hneither
    set fill := List.replicate (policy.maxInflight + 1) (Action.enqueue sampleEnvelope)
    have hfilling : Filling (reached capacity policy fill) (policy.maxInflight + 1) :=
      filling_enqueued sampleEnvelope policy hroom
    have hpolicy : (reached capacity policy fill).policy = policy := policy_after _ fill
    have hpositive : 0 < (reached capacity policy fill).policy.maxAttempts := by
      rw [hpolicy]
      exact Nat.pos_of_ne_zero hattempts
    have hheld := (hfilling.countdown hpositive).inflight_next
    have hbound := hbounded (fill ++ countdown (policy.maxInflight + 1)) 0
    rw [← perform_reached, reached_append, hheld, length_countdown,
      entries_enqueued sampleEnvelope policy hroom, List.length_replicate] at hbound
    omega
  · rintro (hcapacity | hattempts) past nowMs
    · exact (List.countP_le_length.trans (reached capacity policy _).bounded).trans hcapacity
    · rw [inflight_eq_zero hattempts]
      exact Nat.zero_le _

/-- One item at a time, for ten milliseconds. -/
def oneInflight : QueuePolicy where
  maxInflight := 1
  leaseMs := 10
  maxAttempts := 3

theorem not_boundedInflight_two :
    (reached 2 oneInflight
      [.enqueue sampleEnvelope, .enqueue sampleEnvelope, .next 0, .next 0]).inflight 0 = 2 ∧
      ¬BoundedInflight 2 oneInflight := by
  have htwo : (reached 2 oneInflight
      [.enqueue sampleEnvelope, .enqueue sampleEnvelope, .next 0, .next 0]).inflight 0 = 2 := by
    decide +kernel
  refine ⟨htwo, fun hbounded => ?_⟩
  have hle := hbounded [.enqueue sampleEnvelope, .enqueue sampleEnvelope, .next 0] 0
  rw [show _ ++ [_] = [_, _, _, _] from rfl, htwo] at hle
  exact absurd hle (by decide)

end SemanticQueue
end Ubiq.Contracts
