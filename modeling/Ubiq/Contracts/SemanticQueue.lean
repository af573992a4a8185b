import Ubiq.Core.Event
import Ubiq.Foundation.Execution
import Ubiq.Foundation.Slots

/-!
# The semantic queue

The bounded queue of `contracts.zig`. An item stays in its cell for ever; `next` returns one that
is neither quarantined nor under a lease and starts a lease on it, and `settle` ends the lease of
an item. A pointer to an item is its index.

Times and counters are natural numbers. A call whose checked addition would trap in the source
ends its run there, so the runs of the source are among the runs here.

* `Foremost` says which item the loop of `next` finds, in terms of the items alone: the first
  available one, or with priority the first available one among those with the fewest attempts.
* `item_perform` says what one call does to one item, and is all that is used of the calls later.
-/

namespace Ubiq.Contracts

open Foundation
open Ubiq.Core (Envelope)

inductive ContractError
  | invalidCorrelation
  | invalidStreamTransition
  | invalidSubscription
  | queueFull
  | poisonMessage
deriving DecidableEq, Repr

structure QueuePolicy where
  maxInflight : Nat
  leaseMs : Nat
  maxAttempts : Nat
  priority : Bool := false
deriving DecidableEq, Repr

structure QueueItem where
  envelope : Envelope
  attempts : Nat := 0
  leasedUntilMs : Nat := 0
  quarantined : Bool := false
deriving DecidableEq, Repr

/-- `SemanticQueue`: the entries are `items[0..len]`. -/
structure SemanticQueue (capacity : Nat) extends Slots QueueItem capacity where
  policy : QueuePolicy

/-- The test of the loop of `next`: the item may be returned at this time. -/
def QueueItem.Available (item : QueueItem) (nowMs : Nat) : Prop :=
  ¬(item.quarantined ∨ nowMs < item.leasedUntilMs)

instance decidableAvailable (item : QueueItem) (nowMs : Nat) : Decidable (item.Available nowMs) :=
  inferInstanceAs (Decidable ¬(_ ∨ _))

/-- What `next` does to the item that it returns. -/
def QueueItem.grant (policy : QueuePolicy) (nowMs : Nat) (item : QueueItem) : QueueItem :=
  { item with
    attempts := item.attempts + 1
    leasedUntilMs := nowMs + policy.leaseMs
    quarantined := if item.attempts + 1 > policy.maxAttempts then true else item.quarantined }

/-- What `settle` does to its item. -/
def QueueItem.release (item : QueueItem) : QueueItem :=
  { item with leasedUntilMs := 0 }

/-- The body of the loop of `next` at one index. -/
def consider (policy : QueuePolicy) (nowMs : Nat) (items : List QueueItem)
    (selected : Option Nat) (index : Nat) : Option Nat :=
  match items[index]? with
  | none => selected
  | some item =>
      if ¬item.Available nowMs then selected
      else
        match selected.bind fun best => items[best]? with
        | none => some index
        | some best => if policy.priority ∧ item.attempts < best.attempts then some index else selected

/-- The loop of `next`: without priority the first available item, with priority the first of
those with the fewest attempts. -/
def select (policy : QueuePolicy) (nowMs : Nat) (items : List QueueItem) : Option Nat :=
  (List.range items.length).foldl (consider policy nowMs items) none

namespace SemanticQueue

variable {capacity : Nat}

def init (capacity : Nat) (policy : QueuePolicy) : SemanticQueue capacity :=
  { Slots.empty QueueItem capacity with policy := policy }

/-- An assignment through a pointer to an item. -/
def put (queue : SemanticQueue capacity) (index : Nat) (item : QueueItem) :
    SemanticQueue capacity :=
  { queue with toSlots := queue.toSlots.put index item }

def enqueue (queue : SemanticQueue capacity) (envelope : Envelope) :
    SemanticQueue capacity × Except ContractError Unit :=
  if h : queue.entries.length < capacity then
    ({ queue with toSlots := queue.toSlots.push { envelope := envelope } h }, .ok ())
  else (queue, .error .queueFull)

def next (queue : SemanticQueue capacity) (nowMs : Nat) : SemanticQueue capacity × Option Nat :=
  match select queue.policy nowMs queue.entries with
  | none => (queue, none)
  | some index =>
      match queue.entries[index]? with
      | none => (queue, none)
      | some item => (queue.put index (item.grant queue.policy nowMs), some index)

def settle (queue : SemanticQueue capacity) (index : Nat) : SemanticQueue capacity :=
  match queue.entries[index]? with
  | none => queue
  | some item => queue.put index item.release

end SemanticQueue

/-! ## What the loop selects -/

section Foremost

variable {policy : QueuePolicy} {nowMs bound index : Nat} {items : List QueueItem} {item : QueueItem}

/-- The item at the index comes first among the available items before the bound. -/
structure Foremost (policy : QueuePolicy) (nowMs : Nat) (items : List QueueItem) (bound index : Nat)
    (item : QueueItem) : Prop where
  get : items[index]? = some item
  inside : index < bound
  available : item.Available nowMs
  before : ∀ other found, other < index → items[other]? = some found → found.Available nowMs →
    policy.priority = true ∧ item.attempts < found.attempts
  behind : ∀ other found, index < other → other < bound → items[other]? = some found →
    found.Available nowMs → policy.priority = false ∨ item.attempts ≤ found.attempts

theorem Foremost.index_le {other : Nat} {found : QueueItem}
    (h : Foremost policy nowMs items bound index item)
    (hother : Foremost policy nowMs items bound other found) : index ≤ other := by
  by_contra hlt
  obtain ⟨hpriority, hless⟩ := h.before other found (by omega) hother.get hother.available
  rcases hother.behind index item (by omega) h.inside h.get h.available with hfalse | hle
  · rw [hpriority] at hfalse
    cases hfalse
  · omega

theorem Foremost.unique {other : Nat} {found : QueueItem}
    (h : Foremost policy nowMs items bound index item)
    (hother : Foremost policy nowMs items bound other found) : index = other :=
  le_antisymm (h.index_le hother) (hother.index_le h)

/-- The loop has found the foremost item before the bound, if one is available there. -/
structure Found (policy : QueuePolicy) (nowMs : Nat) (items : List QueueItem) (bound : Nat)
    (selected : Option Nat) : Prop where
  foremost : ∀ index, selected = some index → ∃ item, Foremost policy nowMs items bound index item
  complete : selected = none → ∀ index item, index < bound → items[index]? = some item →
    ¬item.Available nowMs

/-- An item at the bound that is not better than the foremost one changes nothing. -/
theorem Foremost.extend (h : Foremost policy nowMs items bound index item)
    (hbound : ∀ found, items[bound]? = some found → found.Available nowMs →
      policy.priority = false ∨ item.attempts ≤ found.attempts) :
    Foremost policy nowMs items (bound + 1) index item where
  get := h.get
  inside := Nat.lt_succ_of_lt h.inside
  available := h.available
  before := h.before
  behind := by
    intro other found hindex hother hget havailable
    rcases Nat.lt_succ_iff_lt_or_eq.mp hother with hlt | rfl
    · exact h.behind other found hindex hlt hget havailable
    · exact hbound found hget havailable

/-- A better item at the bound takes its place: it has fewer attempts than every item before. -/
theorem Foremost.replace {found : QueueItem} (h : Foremost policy nowMs items bound index item)
    (hget : items[bound]? = some found) (havailable : found.Available nowMs)
    (hpriority : policy.priority = true) (hless : found.attempts < item.attempts) :
    Foremost policy nowMs items (bound + 1) bound found where
  get := hget
  inside := Nat.lt_succ_self bound
  available := havailable
  before := by
    intro other earlier hother hearlier hopen
    refine ⟨hpriority, ?_⟩
    rcases Nat.lt_trichotomy other index with hlt | rfl | hgt
    · exact hless.trans (h.before other earlier hlt hearlier hopen).2
    · obtain rfl := Option.some.inj (h.get.symm.trans hearlier)
      exact hless
    · rcases h.behind other earlier hgt hother hearlier hopen with hfalse | hle
      · rw [hpriority] at hfalse
        cases hfalse
      · omega
  behind := by
    intro other _ hbehind hother
    omega

/-- An item that is not available is passed over. -/
theorem Found.pass {selected : Option Nat} (h : Found policy nowMs items bound selected)
    (hbound : ∀ found, items[bound]? = some found → ¬found.Available nowMs) :
    Found policy nowMs items (bound + 1) selected where
  foremost := by
    intro index hindex
    obtain ⟨item, hforemost⟩ := h.foremost index hindex
    exact ⟨item, hforemost.extend fun found hget havailable =>
      absurd havailable (hbound found hget)⟩
  complete := by
    intro hnone index item hindex hget
    rcases Nat.lt_succ_iff_lt_or_eq.mp hindex with hlt | rfl
    · exact h.complete hnone index item hlt hget
    · exact hbound item hget

/-- The first available item is the foremost one. -/
theorem Found.first (h : Found policy nowMs items bound none) (hget : items[bound]? = some item)
    (havailable : item.Available nowMs) : Foremost policy nowMs items (bound + 1) bound item where
  get := hget
  inside := Nat.lt_succ_self bound
  available := havailable
  before := fun other found hother hfound hopen =>
    absurd hopen (h.complete rfl other found hother hfound)
  behind := by
    intro other _ hbehind hother
    omega

theorem Foremost.found (h : Foremost policy nowMs items bound index item) :
    Found policy nowMs items bound (some index) where
  foremost := by
    intro other hother
    obtain rfl := Option.some.inj hother
    exact ⟨item, h⟩
  complete := by simp

theorem found_consider {selected : Option Nat} (h : Found policy nowMs items bound selected) :
    Found policy nowMs items (bound + 1) (consider policy nowMs items selected bound) := by
  unfold consider
  cases hget : items[bound]? with
  | none => exact h.pass (by simp [hget])
  | some item =>
      by_cases havailable : item.Available nowMs
      · simp only [havailable, not_true_eq_false, if_false]
        cases selected with
        | none => exact (h.first hget havailable).found
        | some best =>
            obtain ⟨bestItem, hforemost⟩ := h.foremost best rfl
            simp only [Option.bind_some, hforemost.get]
            split_ifs with hbetter
            · exact (hforemost.replace hget havailable hbetter.1 hbetter.2).found
            · refine (hforemost.extend fun found hfound _ => ?_).found
              obtain rfl := Option.some.inj (hget.symm.trans hfound)
              rw [not_and_or, Bool.not_eq_true, Nat.not_lt] at hbetter
              exact hbetter
      · simp only [havailable, not_false_eq_true, if_true]
        refine h.pass fun found hfound => ?_
        obtain rfl := Option.some.inj (hget.symm.trans hfound)
        exact havailable

theorem found_select : Found policy nowMs items items.length (select policy nowMs items) := by
  unfold select
  generalize items.length = bound
  induction bound with
  | zero =>
      refine ⟨fun index h => ?_, fun _ index item hindex => absurd hindex index.not_lt_zero⟩
      cases h
  | succ bound ih =>
      rw [List.range_succ, List.foldl_append]
      exact found_consider ih

/-- **The loop of `next` finds the foremost item.** -/
theorem select_eq_some_iff :
    select policy nowMs items = some index ↔
      ∃ item, Foremost policy nowMs items items.length index item := by
  constructor
  · exact found_select.foremost index
  · rintro ⟨item, hforemost⟩
    cases hselect : select policy nowMs items with
    | none =>
        exact absurd hforemost.available
          (found_select.complete hselect index item hforemost.inside hforemost.get)
    | some other =>
        obtain ⟨found, hother⟩ := found_select.foremost other hselect
        rw [hother.unique hforemost]

end Foremost

/-! ## Runs -/

/-- The calls. -/
inductive Action
  | enqueue (envelope : Envelope)
  | next (nowMs : Nat)
  | settle (index : Nat)
deriving DecidableEq, Repr

/-- What a call returns. -/
inductive Reply
  | done
  | failed (err : ContractError)
  | nothing
  | item (index : Nat)
deriving DecidableEq, Repr

namespace SemanticQueue

variable {capacity : Nat} {queue : SemanticQueue capacity}

/-- One call. -/
def perform (queue : SemanticQueue capacity) : Action → SemanticQueue capacity × Reply
  | .enqueue envelope =>
      match queue.enqueue envelope with
      | (next, .ok _) => (next, .done)
      | (next, .error err) => (next, .failed err)
  | .next nowMs =>
      match queue.next nowMs with
      | (next, some index) => (next, .item index)
      | (next, none) => (next, .nothing)
  | .settle index => (queue.settle index, .done)

/-- The queue after some calls. -/
def after (queue : SemanticQueue capacity) (actions : List Action) : SemanticQueue capacity :=
  Execution.run (Execution.after perform) queue actions

/-- The queues of a capacity and a policy. -/
def reached (capacity : Nat) (policy : QueuePolicy) (actions : List Action) :
    SemanticQueue capacity :=
  (init capacity policy).after actions

theorem reached_append (capacity : Nat) (policy : QueuePolicy) (first second : List Action) :
    reached capacity policy (first ++ second) = (reached capacity policy first).after second :=
  Execution.run_append _ _ _ _

theorem perform_reached (capacity : Nat) (policy : QueuePolicy) (past : List Action)
    (action : Action) : ((reached capacity policy past).perform action).1 =
      reached capacity policy (past ++ [action]) :=
  (reached_append capacity policy past [action]).symm

/-- What a call can do. -/
inductive Effect (queue : SemanticQueue capacity) : Action → SemanticQueue capacity → Reply → Prop
  | full (envelope : Envelope) : Effect queue (.enqueue envelope) queue (.failed .queueFull)
  | enqueued (envelope : Envelope) (h : queue.entries.length < capacity) :
      Effect queue (.enqueue envelope)
        { queue with toSlots := queue.toSlots.push { envelope := envelope } h } .done
  | nothing (nowMs : Nat) (h : ∀ item ∈ queue.entries, ¬item.Available nowMs) :
      Effect queue (.next nowMs) queue .nothing
  | granted (nowMs index : Nat) (item : QueueItem) (hget : queue.entries[index]? = some item)
      (havailable : item.Available nowMs) :
      Effect queue (.next nowMs) (queue.put index (item.grant queue.policy nowMs)) (.item index)
  | settled (index : Nat) (item : QueueItem) (hget : queue.entries[index]? = some item) :
      Effect queue (.settle index) (queue.put index item.release) .done
  | absent (index : Nat) (hget : queue.entries[index]? = none) :
      Effect queue (.settle index) queue .done

theorem effect_next (nowMs : Nat) :
    Effect queue (.next nowMs) (queue.perform (.next nowMs)).1 (queue.perform (.next nowMs)).2 := by
  simp only [perform, next]
  cases hcase : select queue.policy nowMs queue.entries with
  | none =>
      refine .nothing nowMs fun item hitem => ?_
      obtain ⟨index, hget⟩ := List.getElem?_of_mem hitem
      exact found_select.complete hcase index item (List.getElem?_eq_some_iff.mp hget).1 hget
  | some index =>
      obtain ⟨item, hforemost⟩ := found_select.foremost index hcase
      simp only [hforemost.get]
      exact .granted nowMs index item hforemost.get hforemost.available

theorem effect_perform (queue : SemanticQueue capacity) (action : Action) :
    Effect queue action (queue.perform action).1 (queue.perform action).2 := by
  cases action with
  | enqueue envelope =>
      simp only [perform, enqueue]
      by_cases hfree : queue.entries.length < capacity
      · simp only [dif_pos hfree]
        exact .enqueued envelope hfree
      · simp only [dif_neg hfree]
        exact .full envelope
  | next nowMs => exact effect_next nowMs
  | settle index =>
      simp only [perform, settle]
      cases hget : queue.entries[index]? with
      | none => exact .absent index hget
      | some item => exact .settled index item hget

theorem policy_perform (queue : SemanticQueue capacity) (action : Action) :
    (queue.perform action).1.policy = queue.policy := by
  have heffect := effect_perform queue action
  generalize (queue.perform action).2 = reply at heffect
  generalize (queue.perform action).1 = next at heffect ⊢
  cases heffect <;> rfl

@[simp] theorem policy_after (queue : SemanticQueue capacity) (actions : List Action) :
    (queue.after actions).policy = queue.policy := by
  refine Execution.invariant_run_of_step (motive := fun state : SemanticQueue capacity => state.policy = queue.policy)
    (fun state action h => ?_) rfl actions
  exact (policy_perform state action).trans h

/-- **Invariant rule for items.** A property that a fresh item has and that `next` and `settle`
preserve holds of every item of a run. -/
theorem forall_reached (property : QueueItem → Prop) {policy : QueuePolicy}
    (hfresh : ∀ envelope, property { envelope := envelope })
    (hgrant : ∀ item nowMs, item.Available nowMs → property item →
      property (item.grant policy nowMs))
    (hrelease : ∀ item, property item → property item.release) (actions : List Action) :
    ∀ item ∈ (reached capacity policy actions).entries, property item := by
  refine (Execution.invariant_run_of_step
    (motive := fun state : SemanticQueue capacity =>
      state.policy = policy ∧ ∀ item ∈ state.entries, property item)
    (fun state action h => ?_) ⟨rfl, fun item hitem => absurd hitem List.not_mem_nil⟩ actions).2
  obtain ⟨hpolicy, hall⟩ := h
  refine ⟨(policy_perform state action).trans hpolicy, ?_⟩
  have heffect := effect_perform state action
  show ∀ item ∈ (state.perform action).1.entries, property item
  generalize (state.perform action).2 = reply at heffect
  generalize (state.perform action).1 = next at heffect ⊢
  cases heffect with
  | full envelope => exact hall
  | nothing nowMs h => exact hall
  | absent index hget => exact hall
  | enqueued envelope h =>
      exact List.forall_mem_append.mpr ⟨hall, List.forall_mem_singleton.mpr (hfresh envelope)⟩
  | granted nowMs index item hget havailable =>
      intro other hother
      rcases Slots.mem_put hother with rfl | hold
      · rw [hpolicy]
        exact hgrant item nowMs havailable (hall item (List.mem_of_getElem? hget))
      · exact hall other hold
  | settled index item hget =>
      intro other hother
      rcases Slots.mem_put hother with rfl | hold
      · exact hrelease item (hall item (List.mem_of_getElem? hget))
      · exact hall other hold

/-- What one call does to the item at an index. -/
inductive ItemStep (policy : QueuePolicy) (index : Nat) :
    Action → Reply → QueueItem → QueueItem → Prop
  | granted (nowMs : Nat) (item : QueueItem) (h : item.Available nowMs) :
      ItemStep policy index (.next nowMs) (.item index) item (item.grant policy nowMs)
  | settled (item : QueueItem) : ItemStep policy index (.settle index) .done item item.release
  | untouched (action : Action) (reply : Reply) (item : QueueItem)
      (haction : action ≠ .settle index) (hreply : reply ≠ .item index) :
      ItemStep policy index action reply item item

theorem item_perform {index : Nat} {item : QueueItem} (h : queue.entries[index]? = some item)
    (action : Action) :
    ∃ next, (queue.perform action).1.entries[index]? = some next ∧
      ItemStep queue.policy index action (queue.perform action).2 item next := by
  have heffect := effect_perform queue action
  generalize (queue.perform action).2 = reply at heffect
  generalize (queue.perform action).1 = next at heffect ⊢
  cases heffect with
  | full envelope => exact ⟨item, h, .untouched _ _ _ (by simp) (by simp)⟩
  | nothing nowMs hnone => exact ⟨item, h, .untouched _ _ _ (by simp) (by simp)⟩
  | enqueued envelope hfree =>
      exact ⟨item, Slots.getElem?_push h _ hfree, .untouched _ _ _ (by simp) (by simp)⟩
  | granted nowMs other found hget havailable =>
      by_cases hsame : other = index
      · subst hsame
        obtain rfl := Option.some.inj (h.symm.trans hget)
        exact ⟨_, Slots.getElem?_put_self h _, .granted nowMs item havailable⟩
      · refine ⟨item, (Slots.getElem?_put_of_ne hsame _).trans h, .untouched _ _ _ (by simp) ?_⟩
        simpa using hsame
  | settled other found hget =>
      by_cases hsame : other = index
      · subst hsame
        obtain rfl := Option.some.inj (h.symm.trans hget)
        exact ⟨_, Slots.getElem?_put_self h _, .settled item⟩
      · refine ⟨item, (Slots.getElem?_put_of_ne hsame _).trans h, .untouched _ _ _ ?_ (by simp)⟩
        simpa using hsame
  | absent other hget =>
      refine ⟨item, h, .untouched _ _ _ ?_ (by simp)⟩
      intro hsame
      obtain rfl := Action.settle.inj hsame
      exact Option.some_ne_none _ (h.symm.trans hget)

/-- The calls of a run with their replies. -/
def history (queue : SemanticQueue capacity) (actions : List Action) : List (Action × Reply) :=
  Execution.trace perform queue actions

theorem history_append (queue : SemanticQueue capacity) (first second : List Action) :
    queue.history (first ++ second) = queue.history first ++ (queue.after first).history second :=
  Execution.trace_append _ _ _ _

/-- An item that is returned stands at its index. -/
theorem item_of_returned {nowMs index : Nat}
    (h : (queue.perform (.next nowMs)).2 = .item index) :
    ∃ item, queue.entries[index]? = some item ∧ item.Available nowMs ∧
      (queue.perform (.next nowMs)).1 = queue.put index (item.grant queue.policy nowMs) := by
  have heffect := effect_perform queue (.next nowMs)
  rw [h] at heffect
  generalize (queue.perform (.next nowMs)).1 = next at heffect ⊢
  cases heffect with
  | granted _ _ item hget havailable => exact ⟨item, hget, havailable, rfl⟩

end SemanticQueue

/-- One envelope. -/
def sampleEnvelope : Envelope where
  id := ascii "evt-1"
  event := ⟨ascii "Agent.ask.ok", .ok⟩
  correlationId := ascii "corr"
  causationId := ascii "cause"
  idempotencyKey := ascii "idem"
  schemaId := ascii "Agent.ask.ok@1"
  payload := ascii "\x7b\x7d"
  guarantee := .received
  createdAtMs := 0

end Ubiq.Contracts
