import Ubiq.Contracts.SemanticQueue

/-!
# Settled items of the semantic queue

`settle` only ends the lease of its item, so a settled item is as available as a fresh one unless
it is quarantined. A run in which every settled item was quarantined or had never been returned
keeps the law that a settled item is finished, however long the queue is polled afterwards, and
no other run does. That an item under a lease is not returned holds in every run.
-/

namespace Ubiq.Contracts.SemanticQueue

open Foundation

variable {capacity : Nat} {queue : SemanticQueue capacity} {index : Nat} {item : QueueItem}

/-- **Run rule for one item.** What every call of the run preserves of an item holds at the end,
and every call is one that the property allows. -/
theorem item_run (property : QueueItem → Prop) (allowed : Action × Reply → Prop)
    (queue : SemanticQueue capacity) (actions : List Action)
    (hstep : ∀ action reply, (action, reply) ∈ queue.history actions → ∀ item next,
      ItemStep queue.policy index action reply item next → property item →
        allowed (action, reply) ∧ property next) (h : queue.entries[index]? = some item)
    (hitem : property item) :
    (∀ call ∈ queue.history actions, allowed call) ∧
      ∃ next, (queue.after actions).entries[index]? = some next ∧ property next := by
  induction actions generalizing queue item with
  | nil => exact ⟨fun call hcall => absurd hcall List.not_mem_nil, item, h, hitem⟩
  | cons action rest ih =>
      obtain ⟨next, hnext, hitemStep⟩ := item_perform h action
      obtain ⟨hallowed, hproperty⟩ :=
        hstep action _ List.mem_cons_self item next hitemStep hitem
      have hlater : ∀ other reply, (other, reply) ∈ (queue.perform action).1.history rest →
          ∀ item next, ItemStep (queue.perform action).1.policy index other reply item next →
            property item → allowed (other, reply) ∧ property next := by
        intro other reply hmem
        rw [policy_perform]
        exact hstep other reply (List.mem_cons_of_mem _ hmem)
      obtain ⟨hrest, hend⟩ := ih (queue.perform action).1 hlater hnext hproperty
      exact ⟨List.forall_mem_cons.mpr ⟨hallowed, hrest⟩, hend⟩

/-! ## The law -/

/-- The time of a call to `next`. -/
def Action.time? : Action → Option Nat
  | .next nowMs => some nowMs
  | _ => none

/-- The times of the calls do not decrease. -/
def NonDecreasing (actions : List Action) : Prop :=
  (actions.filterMap Action.time?).Pairwise (· ≤ ·)

instance decidableNonDecreasing (actions : List Action) : Decidable (NonDecreasing actions) :=
  inferInstanceAs (Decidable (List.Pairwise _ _))

/-- A settled item is not returned again, and an item that was returned is not returned again
before it is settled or its lease has expired. -/
structure Lawful (leaseMs : Nat) (calls : List (Action × Reply)) : Prop where
  finished : ∀ index first second, ¬[(Action.next first, Reply.item index),
    (Action.settle index, Reply.done), (Action.next second, Reply.item index)].Sublist calls
  exclusive : ∀ before middle rest index first second,
    calls = before ++ (Action.next first, Reply.item index) ::
      (middle ++ (Action.next second, Reply.item index) :: rest) →
    second < first + leaseMs → (Action.settle index, Reply.done) ∈ middle

/-! ## A lease keeps its item back -/

variable {actions : List Action} {policy : QueuePolicy} {action : Action} {next : QueueItem}

/-- Without `settle` the end of a lease does not move back. -/
theorem leased_after {bound : Nat} (h : queue.entries[index]? = some item)
    (hbound : bound ≤ item.leasedUntilMs)
    (hunsettled : (.settle index, .done) ∉ queue.history actions) :
    ∃ next, (queue.after actions).entries[index]? = some next ∧ bound ≤ next.leasedUntilMs := by
  refine (item_run (fun item => bound ≤ item.leasedUntilMs) (fun _ => True) queue actions ?_ h
    hbound).2
  intro action reply hmem item next hitemStep hbound
  refine ⟨trivial, ?_⟩
  cases hitemStep with
  | granted nowMs _ havailable =>
      have hexpired : item.leasedUntilMs ≤ nowMs := Nat.le_of_not_lt fun h => havailable (.inr h)
      show bound ≤ nowMs + queue.policy.leaseMs
      omega
  | settled => exact absurd hmem hunsettled
  | untouched => exact hbound

theorem exclusive_history (queue : SemanticQueue capacity)
    {before middle rest : List (Action × Reply)} {first second : Nat}
    (h : queue.history actions = before ++ (.next first, .item index) ::
      (middle ++ (.next second, .item index) :: rest))
    (hlease : second < first + queue.policy.leaseMs) : (.settle index, .done) ∈ middle := by
  by_contra hunsettled
  obtain ⟨past, later, -, -, hlater⟩ := Execution.trace_eq_append h
  have hpolicy : (queue.after past).policy = queue.policy := policy_after queue past
  cases later with
  | nil => cases hlater
  | cons action later =>
      rw [Execution.trace_cons, List.cons.injEq, Prod.mk.injEq] at hlater
      obtain ⟨⟨rfl, hreply⟩, hlater⟩ := hlater
      obtain ⟨item, hget, -, hput⟩ := item_of_returned hreply
      obtain ⟨between, last, -, hbetween, hlast⟩ := Execution.trace_eq_append hlater
      rw [← hbetween] at hunsettled
      have hgranted := Slots.getElem?_put_self hget
        (item.grant (queue.after past).policy first)
      rw [Execution.after, hput] at hunsettled hlast
      obtain ⟨held, hheld, hbound⟩ := leased_after hgranted le_rfl hunsettled
      cases last with
      | nil => cases hlast
      | cons action last =>
          rw [Execution.trace_cons, List.cons.injEq, Prod.mk.injEq] at hlast
          obtain ⟨⟨rfl, hagain⟩, -⟩ := hlast
          obtain ⟨found, hfound, havailable, -⟩ := item_of_returned hagain
          obtain rfl := Option.some.inj (hheld.symm.trans hfound)
          apply havailable
          right
          rw [hpolicy] at hbound
          exact lt_of_lt_of_le hlease hbound

/-! ## Spent items -/

/-- `settle` is called on an item that was never returned or is quarantined. -/
def SettlesSpent (queue : SemanticQueue capacity) : Action → Prop
  | .settle index => ∀ item ∈ queue.entries[index]?, item.attempts = 0 ∨ item.quarantined = true
  | _ => True

instance decidableSettlesSpent (queue : SemanticQueue capacity) (action : Action) :
    Decidable (queue.SettlesSpent action) :=
  match action with
  | .settle index =>
      inferInstanceAs (Decidable (∀ item ∈ queue.entries[index]?, _ ∨ _))
  | .enqueue _ => inferInstanceAs (Decidable True)
  | .next _ => inferInstanceAs (Decidable True)

theorem ItemStep.attempts_le {reply : Reply} (h : ItemStep policy index action reply item next) :
    item.attempts ≤ next.attempts := by
  cases h with
  | granted => exact Nat.le_succ _
  | settled => exact le_rfl
  | untouched => exact le_rfl

theorem ItemStep.quarantined {reply : Reply} (h : ItemStep policy index action reply item next)
    (hitem : item.quarantined = true) : next.quarantined = true := by
  cases h with
  | granted _ _ havailable => exact absurd (.inl hitem) havailable
  | settled => exact hitem
  | untouched => exact hitem

/-- A quarantined item is not returned. -/
theorem not_returned_of_quarantined (h : queue.entries[index]? = some item)
    (hquarantined : item.quarantined = true) (actions : List Action) (nowMs : Nat) :
    (.next nowMs, .item index) ∉ queue.history actions := by
  intro hmem
  refine (item_run (fun item => item.quarantined = true)
    (fun call => call ≠ (.next nowMs, .item index)) queue actions ?_ h hquarantined).1 _ hmem rfl
  intro action reply _ item next hitemStep hquarantined
  refine ⟨?_, hitemStep.quarantined hquarantined⟩
  intro hcall
  obtain ⟨rfl, rfl⟩ := Prod.mk.inj hcall
  cases hitemStep with
  | granted _ _ havailable => exact havailable (.inl hquarantined)
  | untouched _ _ _ _ hreply => exact hreply rfl

/-- An item that was returned once is finished with the first `settle` of a spent item. -/
theorem not_settled_then_returned (h : queue.entries[index]? = some item)
    (hattempts : item.attempts ≠ 0)
    (halong : Execution.Along (Execution.after perform) SettlesSpent queue actions) (nowMs : Nat) :
    ¬[(Action.settle index, Reply.done), (Action.next nowMs, Reply.item index)].Sublist
      (queue.history actions) := by
  induction actions generalizing queue item with
  | nil => exact fun hsublist => absurd (List.sublist_nil.mp hsublist) (List.cons_ne_nil _ _)
  | cons action rest ih =>
      obtain ⟨hguard, hrest⟩ := halong
      obtain ⟨next, hnext, hitemStep⟩ := item_perform h action
      intro hsublist
      rcases List.sublist_cons_iff.mp hsublist with hlater | ⟨tail, hhead, htail⟩
      · have hle := hitemStep.attempts_le
        exact ih hnext (by omega) hrest hlater
      · rw [List.cons.injEq, Prod.mk.injEq] at hhead
        obtain ⟨⟨rfl, -⟩, rfl⟩ := hhead
        have hquarantined : item.quarantined = true := (hguard item h).resolve_left hattempts
        exact not_returned_of_quarantined hnext (hitemStep.quarantined hquarantined) rest nowMs
          (List.singleton_sublist.mp htail)

theorem finished_of_along
    (halong : Execution.Along (Execution.after perform) SettlesSpent queue actions)
    (first second : Nat) :
    ¬[(Action.next first, Reply.item index), (Action.settle index, Reply.done),
      (Action.next second, Reply.item index)].Sublist (queue.history actions) := by
  induction actions generalizing queue with
  | nil => exact fun hsublist => absurd (List.sublist_nil.mp hsublist) (List.cons_ne_nil _ _)
  | cons action rest ih =>
      obtain ⟨-, hrest⟩ := halong
      intro hsublist
      rcases List.sublist_cons_iff.mp hsublist with hlater | ⟨tail, hhead, htail⟩
      · exact ih hrest hlater
      · rw [List.cons.injEq, Prod.mk.injEq] at hhead
        obtain ⟨⟨rfl, hreply⟩, rfl⟩ := hhead
        obtain ⟨item, hget, -, hput⟩ := item_of_returned hreply.symm
        have hgranted : (queue.perform (.next first)).1.entries[index]? =
            some (item.grant queue.policy first) := by
          rw [hput]
          exact Slots.getElem?_put_self hget _
        exact not_settled_then_returned hgranted (Nat.succ_ne_zero _) hrest second htail

theorem lawful_of_along
    (halong : Execution.Along (Execution.after perform) SettlesSpent queue actions) :
    Lawful queue.policy.leaseMs (queue.history actions) where
  finished _ first second := finished_of_along halong first second
  exclusive _ _ _ _ _ _ h hlease := exclusive_history queue h hlease

/-! ## Items that are settled too early -/

/-- An item comes from the item at its index, or is new. -/
theorem item_perform_inv (h : (queue.perform action).1.entries[index]? = some next) :
    (∃ item, queue.entries[index]? = some item ∧
      ItemStep queue.policy index action (queue.perform action).2 item next) ∨
    next.attempts = 0 := by
  cases hget : queue.entries[index]? with
  | some item =>
      obtain ⟨found, hfound, hitemStep⟩ := item_perform hget action
      obtain rfl := Option.some.inj (h.symm.trans hfound)
      exact .inl ⟨item, rfl, hitemStep⟩
  | none =>
      right
      have heffect := effect_perform queue action
      generalize (queue.perform action).2 = reply at heffect
      generalize (queue.perform action).1 = after at heffect h
      have habsent : ∀ other item, (queue.put other item).entries[index]? ≠ some next := by
        intro other item hput
        have hlength := (List.getElem?_eq_some_iff.mp hput).1
        rw [put, Slots.entries_put, List.length_set] at hlength
        rw [List.getElem?_eq_none_iff] at hget
        omega
      cases heffect with
      | full => cases hget.symm.trans h
      | nothing => cases hget.symm.trans h
      | absent => cases hget.symm.trans h
      | granted => exact absurd h (habsent _ _)
      | settled => exact absurd h (habsent _ _)
      | enqueued envelope hfree =>
          have hlength := List.getElem?_eq_none_iff.mp hget
          change (queue.entries ++ [_])[index]? = some next at h
          rw [List.getElem?_append_right hlength, List.getElem?_singleton] at h
          split_ifs at h
          obtain rfl := Option.some.inj h
          rfl

/-- The attempts of an item are calls that returned it, or are older than the run. -/
theorem returned_or_attempted (h : (queue.after actions).entries[index]? = some item)
    (hattempts : item.attempts ≠ 0) :
    (∃ nowMs, (.next nowMs, .item index) ∈ queue.history actions) ∨
      ∃ old, queue.entries[index]? = some old ∧ old.attempts ≠ 0 := by
  induction actions generalizing queue with
  | nil => exact .inr ⟨item, h, hattempts⟩
  | cons action rest ih =>
      have hrest : ((queue.perform action).1.after rest).entries[index]? = some item := h
      rcases ih hrest with ⟨nowMs, hmem⟩ | ⟨next, hnext, hne⟩
      · exact .inl ⟨nowMs, List.mem_cons_of_mem _ hmem⟩
      · rcases item_perform_inv hnext with ⟨old, hold, hitemStep⟩ | hfresh
        · generalize hreply : (queue.perform action).2 = reply at hitemStep
          cases hitemStep with
          | granted nowMs =>
              refine .inl ⟨nowMs, ?_⟩
              rw [← hreply]
              exact List.mem_cons_self
          | settled => exact .inr ⟨_, hold, hne⟩
          | untouched => exact .inr ⟨_, hold, hne⟩
        · exact absurd hfresh hne

theorem returned_of_attempts {capacity : Nat}
    (h : (reached capacity policy actions).entries[index]? = some item)
    (hattempts : item.attempts ≠ 0) :
    ∃ nowMs, (.next nowMs, .item index) ∈ (init capacity policy).history actions := by
  rcases returned_or_attempted h hattempts with hreturned | ⟨old, hold, -⟩
  · exact hreturned
  · cases hold

/-- An item beyond its attempts is quarantined. -/
theorem attempts_le_of_reached (capacity : Nat) (policy : QueuePolicy) (actions : List Action) :
    ∀ item ∈ (reached capacity policy actions).entries,
      item.quarantined = false → item.attempts ≤ policy.maxAttempts := by
  refine forall_reached
    (fun item => item.quarantined = false → item.attempts ≤ policy.maxAttempts)
    (fun envelope _ => Nat.zero_le _) ?_ (fun item h => h) actions
  intro item nowMs havailable hitem hgranted
  by_contra hmany
  simp only [QueueItem.grant] at hgranted hmany
  rw [if_pos (Nat.lt_of_not_le hmany)] at hgranted
  cases hgranted

/-- The attempts that are left before every item is quarantined. -/
def attemptsLeft (queue : SemanticQueue capacity) : Nat :=
  (queue.entries.map fun item => queue.policy.maxAttempts + 1 - item.attempts).sum

/-- A call to `next` returns the available item, or uses up an attempt of another one. -/
theorem next_available {nowMs : Nat} (hlimit : ∀ item ∈ queue.entries, item.quarantined = false →
      item.attempts ≤ queue.policy.maxAttempts) (h : queue.entries[index]? = some item)
    (havailable : item.Available nowMs) :
    (queue.perform (.next nowMs)).2 = .item index ∨
      (queue.perform (.next nowMs)).1.entries[index]? = some item ∧
        (queue.perform (.next nowMs)).1.attemptsLeft < queue.attemptsLeft := by
  have heffect := effect_perform queue (.next nowMs)
  generalize (queue.perform (.next nowMs)).2 = reply at heffect ⊢
  generalize (queue.perform (.next nowMs)).1 = next at heffect ⊢
  cases heffect with
  | nothing _ hnone => exact absurd havailable (hnone item (List.mem_of_getElem? h))
  | granted _ other found hget hfound =>
      by_cases hsame : other = index
      · exact .inl (congrArg Reply.item hsame)
      · refine .inr ⟨(Slots.getElem?_put_of_ne hsame _).trans h, ?_⟩
        have hquarantined : found.quarantined = false :=
          Bool.eq_false_iff.mpr fun h => hfound (.inl h)
        have hattempts := hlimit found (List.mem_of_getElem? hget) hquarantined
        have hsum := Slots.sum_put hget (found.grant queue.policy nowMs) fun item =>
          queue.policy.maxAttempts + 1 - item.attempts
        simp only [attemptsLeft, put, QueueItem.grant] at hsum ⊢
        omega

/-- **An available item is returned if the queue is polled for long enough.** Every other item
that is returned before it uses up one of its attempts. -/
theorem returned_of_polling {capacity : Nat} {nowMs : Nat} {past : List Action}
    (h : (reached capacity policy past).entries[index]? = some item)
    (havailable : item.Available nowMs) :
    ∃ count, (.next nowMs, .item index) ∈
      (reached capacity policy past).history (List.replicate count (.next nowMs)) := by
  -- induction on the attempts that are left
  induction hleft : (reached capacity policy past).attemptsLeft using Nat.strong_induction_on
    generalizing past with
  | _ left ih =>
      subst hleft
      have hpolicy : (reached capacity policy past).policy = policy := policy_after _ past
      have hlimit : ∀ item ∈ (reached capacity policy past).entries, item.quarantined = false →
          item.attempts ≤ (reached capacity policy past).policy.maxAttempts := by
        rw [hpolicy]
        exact attempts_le_of_reached capacity policy past
      rcases next_available hlimit h havailable with hreply | ⟨hkept, hless⟩
      · refine ⟨1, ?_⟩
        show _ ∈ [(_, _)]
        rw [hreply]
        exact List.mem_singleton_self _
      · rw [perform_reached] at hkept hless
        obtain ⟨count, hmem⟩ := ih _ hless hkept rfl
        refine ⟨count + 1, ?_⟩
        rw [← perform_reached] at hmem
        exact List.mem_cons_of_mem _ hmem

/-- A released item that is not returned stays released. -/
theorem released_after (h : queue.entries[index]? = some item)
    (hreleased : item.quarantined = false ∧ item.leasedUntilMs = 0)
    (hunreturned : ∀ nowMs, (.next nowMs, .item index) ∉ queue.history actions) :
    ∃ next, (queue.after actions).entries[index]? = some next ∧
      next.quarantined = false ∧ next.leasedUntilMs = 0 := by
  refine (item_run (fun item => item.quarantined = false ∧ item.leasedUntilMs = 0)
    (fun _ => True) queue actions ?_ h hreleased).2
  intro action reply hmem item next hitemStep hreleased
  refine ⟨trivial, ?_⟩
  cases hitemStep with
  | granted nowMs => exact absurd hmem (hunreturned nowMs)
  | settled => exact ⟨hreleased.1, rfl⟩
  | untouched => exact hreleased

/-- An item that is settled before it is spent is returned again, during the run or by polling the
queue after it. -/
theorem returned_of_unspent {capacity : Nat} {past : List Action}
    (h : (reached capacity policy past).entries[index]? = some item)
    (hquarantined : item.quarantined = false) (rest : List Action) (nowMs : Nat) :
    ∃ count later, (.next later, .item index) ∈
      (reached capacity policy (past ++ [.settle index])).history
        (rest ++ (List.replicate count nowMs).map .next) := by
  have hnext : (reached capacity policy (past ++ [.settle index])).entries[index]? =
      some item.release := by
    rw [← perform_reached]
    simp only [perform, settle, h]
    exact Slots.getElem?_put_self h _
  by_cases hreturned : ∃ later, (.next later, .item index) ∈
      (reached capacity policy (past ++ [.settle index])).history rest
  · obtain ⟨later, hmem⟩ := hreturned
    refine ⟨0, later, ?_⟩
    rwa [List.replicate_zero, List.map_nil, List.append_nil]
  · obtain ⟨last, hlast, hfree, hexpired⟩ :=
      released_after hnext ⟨hquarantined, rfl⟩ (not_exists.mp hreturned)
    have havailable : last.Available nowMs := by
      simp [QueueItem.Available, hfree, hexpired]
    rw [← reached_append] at hlast
    obtain ⟨count, hmem⟩ := returned_of_polling hlast havailable
    refine ⟨count, nowMs, ?_⟩
    rw [history_append, ← reached_append, List.map_replicate]
    exact List.mem_append_right _ hmem

theorem along_polls (queue : SemanticQueue capacity) (polls : List Nat) :
    Execution.Along (Execution.after perform) SettlesSpent queue (polls.map .next) := by
  induction polls generalizing queue with
  | nil => trivial
  | cons nowMs rest ih => exact ⟨trivial, ih _⟩

theorem exists_late (actions : List Action) :
    ∃ nowMs, ∀ count, NonDecreasing actions →
      NonDecreasing (actions ++ (List.replicate count nowMs).map .next) := by
  obtain ⟨nowMs, hbound⟩ := (List.finite_toSet (actions.filterMap Action.time?)).bddAbove
  refine ⟨nowMs, fun count h => ?_⟩
  have htimes : ((List.replicate count nowMs).map Action.next).filterMap Action.time? =
      List.replicate count nowMs := by
    rw [List.filterMap_map]
    exact List.filterMap_some
  rw [NonDecreasing, List.filterMap_append, htimes, List.pairwise_append]
  refine ⟨h, List.pairwise_replicate.mpr (.inr le_rfl), ?_⟩
  intro first hfirst second hsecond
  rw [List.eq_of_mem_replicate hsecond]
  exact hbound hfirst

/-- **A settled item is finished exactly if it was spent.** A run and every polling of the queue
after it keep the law if and only if each `settle` of the run was on an item that had never been
returned or was quarantined. -/
theorem lawful_polling_iff (capacity : Nat) (policy : QueuePolicy) {past : List Action}
    (hpast : NonDecreasing past) :
    (∀ polls : List Nat, NonDecreasing (past ++ polls.map .next) →
      Lawful policy.leaseMs ((init capacity policy).history (past ++ polls.map .next))) ↔
    Execution.Along (Execution.after perform) SettlesSpent (init capacity policy) past := by
  constructor
  · intro hlawful
    by_contra hunspent
    obtain ⟨first, action, second, rfl, haction⟩ := Execution.exists_of_not_along hunspent
    cases action with
    | enqueue envelope => exact haction trivial
    | next nowMs => exact haction trivial
    | settle index =>
        simp only [SettlesSpent, not_forall, not_or, Bool.not_eq_true] at haction
        obtain ⟨item, hget, hattempts, hquarantined⟩ := haction
        obtain ⟨earlier, hearlier⟩ := returned_of_attempts hget hattempts
        obtain ⟨nowMs, hlate⟩ := exists_late (first ++ .settle index :: second)
        obtain ⟨count, later, hlater⟩ := returned_of_unspent hget hquarantined second nowMs
        refine (hlawful (List.replicate count nowMs) (hlate count hpast)).finished index earlier
          later ?_
        have hsplit : (init capacity policy).history
            (first ++ .settle index :: second ++ (List.replicate count nowMs).map .next) =
            (init capacity policy).history first ++ (.settle index, .done) ::
              (reached capacity policy (first ++ [.settle index])).history
                (second ++ (List.replicate count nowMs).map .next) := by
          rw [List.append_assoc, history_append, ← perform_reached]
          rfl
        rw [hsplit]
        exact (List.singleton_sublist.mpr hearlier).append
          ((List.singleton_sublist.mpr hlater).cons_cons _)
  · intro halong polls _
    have hall : Execution.Along (Execution.after perform) SettlesSpent (init capacity policy)
        (past ++ polls.map .next) := by
      rw [Execution.along_append]
      exact ⟨halong, along_polls _ polls⟩
    exact lawful_of_along hall

/-- Leases of ten milliseconds and at most one attempt before quarantine. -/
def oneAttempt : QueuePolicy where
  maxInflight := 1
  leaseMs := 10
  maxAttempts := 1

/-- The item is returned again after its lease, which quarantines it, and then settled. -/
def spentRun : List Action := [.enqueue sampleEnvelope, .next 0, .next 10, .settle 0]

theorem lawful_spentRun : NonDecreasing spentRun ∧
    ∀ polls : List Nat, NonDecreasing (spentRun ++ polls.map .next) →
      Lawful oneAttempt.leaseMs ((init 1 oneAttempt).history (spentRun ++ polls.map .next)) := by
  have hspent : NonDecreasing spentRun := by decide +kernel
  exact ⟨hspent, (lawful_polling_iff 1 oneAttempt hspent).mpr (by decide +kernel)⟩

/-- An item that is settled within its lease is returned at once. -/
theorem not_lawful_settled :
    NonDecreasing [.enqueue sampleEnvelope, .next 0, .settle 0, .next 0] ∧
      ¬Lawful oneAttempt.leaseMs ((init 1 oneAttempt).history
        [.enqueue sampleEnvelope, .next 0, .settle 0, .next 0]) := by
  refine ⟨by decide +kernel, ?_⟩
  intro hlawful
  exact hlawful.finished 0 0 0 (by decide +kernel)

end Ubiq.Contracts.SemanticQueue
