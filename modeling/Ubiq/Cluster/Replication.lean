import Ubiq.Foundation.Bytes
import Ubiq.Foundation.Execution
import Ubiq.Foundation.Slots

/-!
# The replication outbox

`ReplicaQueue` of `cluster_replication.zig`. The slice `entries[0..len]` of its array is a list that
is no longer than the capacity; an entry is never removed. A call brings the epoch and the fence
that are current for its caller, and the queue compares them with those of the record.

* `effect_perform` says what a call can do: nothing, one more entry, or one step of one entry.
* `outbox_order` is what every run keeps: the order for each target, and every entry in its place.
* `recoverable_iff` says when an entry can still be applied under the current authority: only if it
  was enqueued under this authority. A mark asks for the authority of the record, and the record
  cannot be enqueued again under another one, since the old entry is in the way.
-/

namespace Ubiq.Replication

open Foundation

/-- `Error`; no function returns `unknownReplica`. -/
inductive Error
  | queueFull
  | invalidRecord
  | staleEpoch
  | staleFence
  | duplicateRecord
  | sequenceRegression
  | unknownReplica
deriving DecidableEq, Repr

structure ReplicaRecord where
  eventId : Bytes
  sourceNode : Bytes
  targetNode : Bytes
  membershipEpoch : UInt64
  fencingGeneration : UInt64
  sequence : UInt64
  payload : Bytes
deriving DecidableEq, Repr

inductive ReplicaState
  | pending
  | delivered
  | applied
deriving DecidableEq, Repr

structure Entry where
  record : ReplicaRecord
  state : ReplicaState := .pending
deriving DecidableEq, Repr

structure ReplicaQueue (capacity : Nat) extends Slots Entry capacity

/-- The first test of `enqueue`. -/
def ReplicaRecord.isNamed (record : ReplicaRecord) : Bool :=
  record.eventId ≠ [] ∧ record.sourceNode ≠ [] ∧ record.targetNode ≠ [] ∧
    record.sourceNode ≠ record.targetNode

/-- The two records replicate one event to one node. -/
def ReplicaRecord.SameReplica (first second : ReplicaRecord) : Prop :=
  first.eventId = second.eventId ∧ first.targetNode = second.targetNode

instance decidableSameReplica (first second : ReplicaRecord) :
    Decidable (first.SameReplica second) :=
  inferInstanceAs (Decidable (_ ∧ _))

/-- The loop of `enqueue`: the error of the first entry that is in the way. -/
def conflict (record : ReplicaRecord) : List Entry → Option Error
  | [] => none
  | entry :: rest =>
      if entry.record.SameReplica record then some .duplicateRecord
      else if entry.record.targetNode = record.targetNode ∧
          record.sequence ≤ entry.record.sequence then
        some .sequenceRegression
      else conflict record rest

def validateAuthority (record : ReplicaRecord) (epoch fence : UInt64) : Except Error Unit :=
  if record.membershipEpoch ≠ epoch then .error .staleEpoch
  else if record.fencingGeneration ≠ fence then .error .staleFence
  else .ok ()

namespace ReplicaQueue

variable {capacity : Nat}

/-- The queue before its first call. -/
def empty (capacity : Nat) : ReplicaQueue capacity := ⟨Slots.empty Entry capacity⟩

/-- The entry at an index after a change. -/
def put (queue : ReplicaQueue capacity) (index : Nat) (entry : Entry) : ReplicaQueue capacity :=
  ⟨queue.toSlots.put index entry⟩

def enqueue (queue : ReplicaQueue capacity) (record : ReplicaRecord)
    (currentEpoch currentFence : UInt64) : ReplicaQueue capacity × Except Error Nat :=
  if !record.isNamed then (queue, .error .invalidRecord)
  else if record.membershipEpoch ≠ currentEpoch then (queue, .error .staleEpoch)
  else if record.fencingGeneration ≠ currentFence then (queue, .error .staleFence)
  else
    match conflict record queue.entries with
    | some err => (queue, .error err)
    | none =>
        if h : queue.entries.length = capacity then (queue, .error .queueFull)
        else
          (⟨queue.toSlots.push { record := record } (lt_of_le_of_ne queue.bounded h)⟩,
            .ok queue.entries.length)

def entryAt (queue : ReplicaQueue capacity) (index : Nat) : Except Error Entry :=
  match queue.entries[index]? with
  | none => .error .invalidRecord
  | some entry => .ok entry

def get (queue : ReplicaQueue capacity) (index : Nat) : Except Error ReplicaRecord :=
  (queue.entryAt index).map Entry.record

def state (queue : ReplicaQueue capacity) (index : Nat) : Except Error ReplicaState :=
  (queue.entryAt index).map Entry.state

/-- The body of `markDelivered` and `markApplied`. -/
def mark (expected next : ReplicaState) (queue : ReplicaQueue capacity) (index : Nat)
    (epoch fence : UInt64) : ReplicaQueue capacity × Except Error Unit :=
  match queue.entryAt index with
  | .error err => (queue, .error err)
  | .ok entry =>
      match validateAuthority entry.record epoch fence with
      | .error err => (queue, .error err)
      | .ok _ =>
          if entry.state ≠ expected then (queue, .error .invalidRecord)
          else (queue.put index { entry with state := next }, .ok ())

def markDelivered (queue : ReplicaQueue capacity) (index : Nat) (epoch fence : UInt64) :
    ReplicaQueue capacity × Except Error Unit :=
  queue.mark .pending .delivered index epoch fence

def markApplied (queue : ReplicaQueue capacity) (index : Nat) (epoch fence : UInt64) :
    ReplicaQueue capacity × Except Error Unit :=
  queue.mark .delivered .applied index epoch fence

end ReplicaQueue

/-! ## Runs -/

/-- The calls that change the queue. -/
inductive Action
  | enqueue (record : ReplicaRecord) (currentEpoch currentFence : UInt64)
  | markDelivered (index : Nat) (epoch fence : UInt64)
  | markApplied (index : Nat) (epoch fence : UInt64)
deriving DecidableEq, Repr

/-- What a call returns. -/
inductive Reply
  | enqueued (index : Nat)
  | done
  | failed (err : Error)
deriving DecidableEq, Repr

/-- The reply of `enqueue`. -/
def Reply.ofIndex : Except Error Nat → Reply
  | .ok index => .enqueued index
  | .error err => .failed err

/-- The reply of a mark. -/
def Reply.ofUnit : Except Error Unit → Reply
  | .ok _ => .done
  | .error err => .failed err

/-- The call is a mark of this entry from one state to the next, under this authority. -/
inductive Action.Marks (index : Nat) (epoch fence : UInt64) :
    Action → ReplicaState → ReplicaState → Prop
  | delivered : Marks index epoch fence (.markDelivered index epoch fence) .pending .delivered
  | applied : Marks index epoch fence (.markApplied index epoch fence) .delivered .applied

namespace ReplicaQueue

variable {capacity index : Nat} {queue : ReplicaQueue capacity} {record : ReplicaRecord}
  {epoch fence : UInt64} {entry : Entry} {action : Action}

/-- A call on the queue. -/
def perform (queue : ReplicaQueue capacity) : Action → ReplicaQueue capacity × Reply
  | .enqueue record currentEpoch currentFence =>
      (queue.enqueue record currentEpoch currentFence).map id .ofIndex
  | .markDelivered index epoch fence => (queue.markDelivered index epoch fence).map id .ofUnit
  | .markApplied index epoch fence => (queue.markApplied index epoch fence).map id .ofUnit

/-- The queue after some calls. -/
def after (queue : ReplicaQueue capacity) (actions : List Action) : ReplicaQueue capacity :=
  Execution.run (Execution.after perform) queue actions

/-- The queue that some calls lead to. -/
def reached (capacity : Nat) (actions : List Action) : ReplicaQueue capacity :=
  (empty capacity).after actions

theorem after_append (queue : ReplicaQueue capacity) (first second : List Action) :
    queue.after (first ++ second) = (queue.after first).after second :=
  Execution.run_append _ _ _ _

/-! ## What a call can do -/

/-- The effects of a call, with what makes each of them possible. -/
inductive Effect (queue : ReplicaQueue capacity) : Action → ReplicaQueue capacity → Reply → Prop
  | failed (action : Action) (err : Error) : Effect queue action queue (.failed err)
  | enqueued (record : ReplicaRecord) (next : ReplicaQueue capacity)
      (hfree : ∀ entry ∈ queue.entries, entry.record.targetNode = record.targetNode →
        entry.record.eventId ≠ record.eventId ∧ entry.record.sequence < record.sequence)
      (hnext : next.entries = queue.entries ++ [{ record := record }]) :
      Effect queue (.enqueue record record.membershipEpoch record.fencingGeneration) next
        (.enqueued queue.entries.length)
  | marked (action : Action) (index : Nat) (entry : Entry) (state : ReplicaState)
      (hget : queue.entries[index]? = some entry)
      (hmarks : action.Marks index entry.record.membershipEpoch entry.record.fencingGeneration
        entry.state state) :
      Effect queue action (queue.put index { entry with state := state }) .done

/-- A record without a conflict is new for its target and comes last there. -/
theorem conflict_eq_none_iff {entries : List Entry} :
    conflict record entries = none ↔
      ∀ entry ∈ entries, entry.record.targetNode = record.targetNode →
        entry.record.eventId ≠ record.eventId ∧ entry.record.sequence < record.sequence := by
  induction entries with
  | nil => simp [conflict]
  | cons entry rest ih =>
      rw [conflict, List.forall_mem_cons, ← ih]
      by_cases htarget : entry.record.targetNode = record.targetNode
      · by_cases hevent : entry.record.eventId = record.eventId
        · simp [ReplicaRecord.SameReplica, htarget, hevent]
        · by_cases hsequence : record.sequence ≤ entry.record.sequence
          · simp [ReplicaRecord.SameReplica, htarget, hevent, hsequence]
          · have hlater := UInt64.not_le.mp hsequence
            simp [ReplicaRecord.SameReplica, htarget, hevent, hsequence, hlater]
      · simp [ReplicaRecord.SameReplica, htarget]

theorem validateAuthority_eq_ok_iff :
    validateAuthority record epoch fence = .ok () ↔
      record.membershipEpoch = epoch ∧ record.fencingGeneration = fence := by
  unfold validateAuthority
  split
  · simp_all
  · split <;> simp_all

/-- A mark fails, or it moves its entry under the authority of the record. -/
theorem mark_cases (queue : ReplicaQueue capacity) (expected next : ReplicaState) (index : Nat) (epoch fence : UInt64) :
    (∃ err, queue.mark expected next index epoch fence = (queue, .error err)) ∨
      ∃ entry, queue.entries[index]? = some entry ∧ entry.record.membershipEpoch = epoch ∧
        entry.record.fencingGeneration = fence ∧ entry.state = expected ∧
        queue.mark expected next index epoch fence =
          (queue.put index { entry with state := next }, .ok ()) := by
  unfold mark entryAt
  cases hget : queue.entries[index]? with
  | none => exact Or.inl ⟨_, rfl⟩
  | some entry =>
      cases hauthority : validateAuthority entry.record epoch fence with
      | error err => exact Or.inl ⟨err, by simp only [hauthority]⟩
      | ok _ =>
          obtain ⟨hepoch, hfence⟩ := validateAuthority_eq_ok_iff.mp hauthority
          by_cases hstate : entry.state = expected
          · refine Or.inr ⟨entry, rfl, hepoch, hfence, hstate, ?_⟩
            simp only [hauthority, hstate, ne_eq, not_true_eq_false, if_false]
          · refine Or.inl ⟨.invalidRecord, ?_⟩
            simp only [hauthority, ne_eq, hstate, not_false_eq_true, if_true]

theorem effect_enqueue (record : ReplicaRecord) (epoch fence : UInt64) :
    Effect queue (.enqueue record epoch fence) (queue.perform (.enqueue record epoch fence)).1
      (queue.perform (.enqueue record epoch fence)).2 := by
  simp only [perform, enqueue]
  split
  · exact .failed _ _
  split
  · exact .failed _ _
  rename_i hepoch
  split
  · exact .failed _ _
  rename_i hfence
  obtain rfl := not_not.mp hepoch
  obtain rfl := not_not.mp hfence
  cases hconflict : conflict record queue.entries with
  | some err => exact .failed _ _
  | none =>
      by_cases hfull : queue.entries.length = capacity
      · simp only [dif_pos hfull]
        exact .failed _ _
      · simp only [dif_neg hfull]
        exact .enqueued record _ (conflict_eq_none_iff.mp hconflict) rfl

theorem effect_perform (queue : ReplicaQueue capacity) (action : Action) :
    Effect queue action (queue.perform action).1 (queue.perform action).2 := by
  cases action with
  | enqueue record epoch fence => exact effect_enqueue record epoch fence
  | markDelivered index epoch fence =>
      rcases queue.mark_cases .pending .delivered index epoch fence with
        ⟨err, heq⟩ | ⟨entry, hget, rfl, rfl, hstate, heq⟩
      · simp only [perform, markDelivered, heq]
        exact .failed _ _
      · simp only [perform, markDelivered, heq]
        refine .marked _ index entry .delivered hget ?_
        rw [hstate]
        exact .delivered
  | markApplied index epoch fence =>
      rcases queue.mark_cases .delivered .applied index epoch fence with
        ⟨err, heq⟩ | ⟨entry, hget, rfl, rfl, hstate, heq⟩
      · simp only [perform, markApplied, heq]
        exact .failed _ _
      · simp only [perform, markApplied, heq]
        refine .marked _ index entry .applied hget ?_
        rw [hstate]
        exact .applied

/-! ## Order -/

/-- The records of the queue, in its order. -/
def records (queue : ReplicaQueue capacity) : List ReplicaRecord :=
  queue.entries.map Entry.record

/-- What holds of a queue after some calls: a replica occurs once, the sequences of a target
increase, and every record comes from a call under its own authority. -/
structure Ordered (past : List Action) (queue : ReplicaQueue capacity) : Prop where
  distinct : queue.records.Pairwise fun first second => ¬first.SameReplica second
  increasing : queue.records.Pairwise fun first second =>
    first.targetNode = second.targetNode → first.sequence < second.sequence
  enqueued : ∀ record ∈ queue.records,
    Action.enqueue record record.membershipEpoch record.fencingGeneration ∈ past

/-- What a call does to the entries: each stays in its place with its record, and its state stays
or is moved one step under the authority of the record; a new entry is pending. -/
structure Keeps (action : Action) (queue next : ReplicaQueue capacity) : Prop where
  kept : ∀ (index : Nat) (entry : Entry), queue.entries[index]? = some entry →
    ∃ state, next.entries[index]? = some { entry with state := state } ∧
      (state = entry.state ∨ action.Marks index entry.record.membershipEpoch
        entry.record.fencingGeneration entry.state state)
  added : ∀ (index : Nat) (entry : Entry), queue.entries[index]? = none → next.entries[index]? = some entry →
    action = .enqueue entry.record entry.record.membershipEpoch entry.record.fencingGeneration ∧
      entry.state = .pending

theorem records_put (hget : queue.entries[index]? = some entry) (state : ReplicaState) :
    (queue.put index { entry with state := state }).records =
      queue.records := by
  obtain ⟨hlt, hentry⟩ := List.getElem?_eq_some_iff.mp hget
  show (queue.entries.set index { entry with state := state }).map Entry.record =
    queue.entries.map Entry.record
  rw [List.map_set]
  apply List.ext_getElem?
  intro other
  rw [List.getElem?_set]
  by_cases hother : index = other
  · subst hother
    simp [hlt, hentry]
  · simp [hother]

theorem ordered_empty : Ordered [] (empty capacity) where
  distinct := List.Pairwise.nil
  increasing := List.Pairwise.nil
  enqueued := by
    intro record hrecord
    cases hrecord

theorem Ordered.step {past : List Action} (h : Ordered past queue) (action : Action) :
    Ordered (past ++ [action]) (queue.perform action).1 := by
  have hpast : ∀ record ∈ queue.records,
      Action.enqueue record record.membershipEpoch record.fencingGeneration ∈ past ++ [action] :=
    fun record hrecord => List.mem_append_left _ (h.enqueued record hrecord)
  have heffect := effect_perform queue action
  generalize (queue.perform action).2 = reply at heffect
  generalize (queue.perform action).1 = next at heffect ⊢
  cases heffect with
  | failed _ err => exact ⟨h.distinct, h.increasing, hpast⟩
  | marked _ index entry state hget hmarks =>
      rw [← records_put hget state] at hpast
      exact ⟨(records_put hget state).symm ▸ h.distinct,
        (records_put hget state).symm ▸ h.increasing, hpast⟩
  | enqueued record next hfree hnext =>
      have hrecords : next.records = queue.records ++ [record] := by
        rw [records, hnext, List.map_append]
        rfl
      have hlast : ∀ first ∈ queue.records, first.targetNode = record.targetNode →
          first.eventId ≠ record.eventId ∧ first.sequence < record.sequence := by
        intro first hfirst
        obtain ⟨entry, hentry, rfl⟩ := List.mem_map.mp hfirst
        exact hfree entry hentry
      refine ⟨?_, ?_, ?_⟩
      · rw [hrecords, List.pairwise_append]
        refine ⟨h.distinct, List.pairwise_singleton _ _, ?_⟩
        intro first hfirst second hsecond hsame
        obtain rfl := List.mem_singleton.mp hsecond
        exact (hlast first hfirst hsame.2).1 hsame.1
      · rw [hrecords, List.pairwise_append]
        refine ⟨h.increasing, List.pairwise_singleton _ _, ?_⟩
        intro first hfirst second hsecond htarget
        obtain rfl := List.mem_singleton.mp hsecond
        exact (hlast first hfirst htarget).2
      · intro other hother
        rw [hrecords, List.mem_append, List.mem_singleton] at hother
        rcases hother with hold | rfl
        · exact hpast other hold
        · exact List.mem_append_right _ (List.mem_singleton_self _)

theorem ordered_reached (capacity : Nat) (past : List Action) :
    Ordered past (reached capacity past) := by
  induction past using List.reverseRecOn with
  | nil => exact ordered_empty
  | append_singleton past action ih =>
      rw [reached, after_append]
      exact ih.step action

theorem keeps_perform (queue : ReplicaQueue capacity) (action : Action) :
    Keeps action queue (queue.perform action).1 := by
  have heffect := effect_perform queue action
  generalize (queue.perform action).2 = reply at heffect
  generalize (queue.perform action).1 = next at heffect ⊢
  cases heffect with
  | failed _ err =>
      refine ⟨fun index entry hget => ⟨entry.state, hget, Or.inl rfl⟩, ?_⟩
      intro index entry hnone hsome
      rw [hnone] at hsome
      cases hsome
  | marked _ index entry state hget hmarks =>
      have hlt := (List.getElem?_eq_some_iff.mp hget).1
      constructor
      · intro other found hfound
        show ∃ state', (queue.entries.set index { entry with state := state })[other]? = _ ∧ _
        by_cases hother : index = other
        · subst hother
          obtain rfl : entry = found := Option.some.inj (hget.symm.trans hfound)
          exact ⟨state, List.getElem?_set_self hlt, Or.inr hmarks⟩
        · exact ⟨found.state, by rw [List.getElem?_set_ne hother]; exact hfound, Or.inl rfl⟩
      · intro other found hnone hsome
        have hsame : (queue.entries.set index { entry with state := state })[other]? = some found :=
          hsome
        rw [List.getElem?_set_ne] at hsame
        · rw [hnone] at hsame
          cases hsame
        · rintro rfl
          rw [hnone] at hget
          cases hget
  | enqueued record next hfree hnext =>
      constructor
      · intro index entry hget
        refine ⟨entry.state, ?_, Or.inl rfl⟩
        rw [hnext, List.getElem?_append_left (List.getElem?_eq_some_iff.mp hget).1]
        exact hget
      · intro index entry hnone hsome
        rw [hnext, List.getElem?_append_right (List.getElem?_eq_none_iff.mp hnone)] at hsome
        obtain rfl := List.mem_singleton.mp (List.mem_of_getElem? hsome)
        exact ⟨rfl, rfl⟩

/-- One step of the life of a replica. -/
inductive Moves : ReplicaState → ReplicaState → Prop
  | delivered : Moves .pending .delivered
  | applied : Moves .delivered .applied

/-- A mark moves its entry one step. -/
theorem moves_of_marks {state next : ReplicaState} (h : action.Marks index epoch fence state next) :
    Moves state next := by
  cases h with
  | delivered => exact .delivered
  | applied => exact .applied

/-- An entry stays in its place over any number of calls, and its state only moves on. -/
theorem entry_after (hget : queue.entries[index]? = some entry) (later : List Action) :
    ∃ state, (queue.after later).entries[index]? = some { entry with state := state } ∧
      Relation.ReflTransGen Moves entry.state state := by
  induction later using List.reverseRecOn with
  | nil => exact ⟨entry.state, hget, .refl⟩
  | append_singleton later action ih =>
      obtain ⟨state, hstate, hmoves⟩ := ih
      rw [after_append]
      obtain ⟨next, hnext, hsame | hmarks⟩ := (keeps_perform (queue.after later) action).kept
        index _ hstate
      · exact ⟨next, hnext, hsame ▸ hmoves⟩
      · exact ⟨next, hnext, hmoves.tail (moves_of_marks hmarks)⟩

theorem unchanged_of_failed {err : Error} (h : (queue.perform action).2 = .failed err) :
    (queue.perform action).1 = queue := by
  have heffect := effect_perform queue action
  rw [h] at heffect
  generalize (queue.perform action).1 = next at heffect ⊢
  cases heffect
  rfl

/-- **The outbox keeps its order.** After any calls a replica occurs once, and the sequences of a
target increase; a call keeps every entry in its place and moves at most the one it marks, under the
authority of its record; later calls keep it as well; a call that fails changes nothing. -/
theorem outbox_order (capacity : Nat) (past : List Action) :
    Ordered past (reached capacity past) ∧
      (∀ action, Keeps action (reached capacity past) ((reached capacity past).perform action).1 ∧
        ∀ err, ((reached capacity past).perform action).2 = .failed err →
          ((reached capacity past).perform action).1 = reached capacity past) ∧
      ∀ (later : List Action) (index : Nat) (entry : Entry),
        (reached capacity past).entries[index]? = some entry →
          ∃ state, (reached capacity (past ++ later)).entries[index]? =
              some { entry with state := state } ∧
            Relation.ReflTransGen Moves entry.state state := by
  refine ⟨ordered_reached capacity past, ?_, ?_⟩
  · intro action
    exact ⟨keeps_perform _ action, fun err herr => unchanged_of_failed herr⟩
  · intro later index entry hget
    rw [reached, after_append]
    exact entry_after hget later

/-! ## Authority -/

/-- The calls that could finish an entry under the current authority: a mark of it, or one more
`enqueue` of its event for its target with a higher sequence. -/
inductive Retry (index : Nat) (record : ReplicaRecord) (epoch fence : UInt64) : Action → Prop
  | deliver : Retry index record epoch fence (.markDelivered index epoch fence)
  | apply : Retry index record epoch fence (.markApplied index epoch fence)
  | enqueue (again : ReplicaRecord) (hsame : record.SameReplica again)
      (hsequence : record.sequence < again.sequence) :
      Retry index record epoch fence (.enqueue again epoch fence)

/-- The event of the record is applied at its target. -/
def AppliedFor (queue : ReplicaQueue capacity) (record : ReplicaRecord) : Prop :=
  ∃ entry ∈ queue.entries, record.SameReplica entry.record ∧ entry.state = .applied

/-- Some calls under the current authority apply the event of the entry at its target. -/
def Recoverable (queue : ReplicaQueue capacity) (index : Nat) (record : ReplicaRecord)
    (epoch fence : UInt64) : Prop :=
  ∃ actions : List Action, (∀ action ∈ actions, Retry index record epoch fence action) ∧
    AppliedFor (queue.after actions) record

/-- A retry that marks an entry marks this one, under the current authority. -/
theorem Retry.of_marks {other : Nat} {otherEpoch otherFence : UInt64} {state next : ReplicaState}
    (h : Retry index record epoch fence action)
    (hmarks : action.Marks other otherEpoch otherFence state next) :
    index = other ∧ otherEpoch = epoch ∧ otherFence = fence := by
  cases hmarks <;> cases h <;> exact ⟨rfl, rfl, rfl⟩

/-- Under another authority a retry changes nothing: a mark is stale, and the old entry is in the
way of a new one. -/
theorem perform_retry (hget : queue.entries[index]? = some entry)
    (hstale : ¬(entry.record.membershipEpoch = epoch ∧ entry.record.fencingGeneration = fence))
    (h : Retry index entry.record epoch fence action) :
    (queue.perform action).1 = queue := by
  have heffect := effect_perform queue action
  generalize (queue.perform action).2 = reply at heffect
  generalize (queue.perform action).1 = next at heffect ⊢
  cases heffect with
  | failed _ err => rfl
  | marked _ other found state hfound hmarks =>
      obtain ⟨rfl, hepoch, hfence⟩ := h.of_marks hmarks
      obtain rfl : entry = found := Option.some.inj (hget.symm.trans hfound)
      exact absurd ⟨hepoch, hfence⟩ hstale
  | enqueued record next hfree hnext =>
      cases h with
      | enqueue _ hsame hsequence =>
          exact absurd hsame.1 (hfree entry (List.mem_of_getElem? hget) hsame.2).1

theorem after_retries (hget : queue.entries[index]? = some entry)
    (hstale : ¬(entry.record.membershipEpoch = epoch ∧ entry.record.fencingGeneration = fence))
    {actions : List Action} (h : ∀ action ∈ actions, Retry index entry.record epoch fence action) :
    queue.after actions = queue := by
  refine Execution.invariant_run_of_forall (motive := fun state => state = queue) ?_ rfl h
  rintro state action rfl hretry
  exact perform_retry hget hstale hretry

/-- An entry that is not applied is the only one of its replica. -/
theorem not_appliedFor {past : List Action} (hordered : Ordered past queue)
    (hentry : entry ∈ queue.entries) (hstate : entry.state ≠ .applied) :
    ¬AppliedFor queue entry.record := by
  rintro ⟨other, hother, hsame, happlied⟩
  have : Std.Symm fun first second : Entry => ¬first.record.SameReplica second.record :=
    ⟨fun _ _ h hback => h ⟨hback.1.symm, hback.2.symm⟩⟩
  have hne : entry ≠ other := by
    rintro rfl
    exact hstate happlied
  exact (List.pairwise_map.mp hordered.distinct).forall hentry hother hne hsame

/-- A mark under the authority of the record finds its state or fails. -/
theorem mark_current (hget : queue.entries[index]? = some entry) {expected : ReplicaState}
    (hstate : entry.state = expected) (next : ReplicaState) :
    queue.mark expected next index entry.record.membershipEpoch entry.record.fencingGeneration =
      (queue.put index { entry with state := next }, .ok ()) := by
  have hauthority : validateAuthority entry.record entry.record.membershipEpoch
      entry.record.fencingGeneration = .ok () := validateAuthority_eq_ok_iff.mpr ⟨rfl, rfl⟩
  simp only [mark, entryAt, hget, hauthority, hstate, ne_eq, not_true_eq_false, if_false]

/-- One mark finishes a delivered entry. -/
theorem recoverable_of_delivered (hget : queue.entries[index]? = some entry)
    (hstate : entry.state = .delivered) :
    AppliedFor (queue.after [.markApplied index entry.record.membershipEpoch
      entry.record.fencingGeneration]) entry.record := by
  have hmark : (queue.perform (.markApplied index entry.record.membershipEpoch
      entry.record.fencingGeneration)).1 = queue.put index { entry with state := .applied } := by
    simp only [perform, markApplied, mark_current hget hstate, Prod.map_fst, id]
  refine ⟨{ entry with state := .applied }, ?_, ⟨rfl, rfl⟩, rfl⟩
  show _ ∈ (queue.perform _).1.entries
  rw [hmark]
  exact List.mem_of_getElem? (Slots.getElem?_put_self hget _)

/-- Two marks finish an entry under the authority of its record. -/
theorem recoverable_of_current (hget : queue.entries[index]? = some entry)
    (hstate : entry.state ≠ .applied) :
    Recoverable queue index entry.record entry.record.membershipEpoch
      entry.record.fencingGeneration := by
  cases hcase : entry.state with
  | applied => exact absurd hcase hstate
  | delivered =>
      refine ⟨_, ?_, recoverable_of_delivered hget hcase⟩
      intro action haction
      rw [List.mem_singleton.mp haction]
      exact .apply
  | pending =>
      have hmark : (queue.perform (.markDelivered index entry.record.membershipEpoch
          entry.record.fencingGeneration)).1 =
            queue.put index { entry with state := .delivered } := by
        simp only [perform, markDelivered, mark_current hget hcase, Prod.map_fst, id]
      have hget' : (queue.put index { entry with state := .delivered }).entries[index]? =
          some { entry with state := .delivered } := Slots.getElem?_put_self hget _
      have hdelivered := recoverable_of_delivered hget' rfl
      refine ⟨[.markDelivered index entry.record.membershipEpoch entry.record.fencingGeneration,
        .markApplied index entry.record.membershipEpoch entry.record.fencingGeneration], ?_, ?_⟩
      · intro action haction
        rcases List.mem_pair.mp haction with rfl | rfl
        · exact .deliver
        · exact .apply
      · rw [← hmark] at hdelivered
        exact hdelivered

/-- **An entry can be finished exactly under the authority it was enqueued with.** -/
theorem recoverable_iff (past : List Action) {index : Nat} {entry : Entry} (epoch fence : UInt64)
    (hget : (reached capacity past).entries[index]? = some entry)
    (hstate : entry.state ≠ .applied) :
    Recoverable (reached capacity past) index entry.record epoch fence ↔
      entry.record.membershipEpoch = epoch ∧ entry.record.fencingGeneration = fence := by
  constructor
  · rintro ⟨actions, hretries, happlied⟩
    by_contra hstale
    rw [after_retries hget hstale hretries] at happlied
    exact not_appliedFor (ordered_reached capacity past) (List.mem_of_getElem? hget) hstate happlied
  · rintro ⟨rfl, rfl⟩
    exact recoverable_of_current hget hstate

/-- A record of epoch four and fence nine. -/
def firstRecord : ReplicaRecord where
  eventId := ascii "evt-1"
  sourceNode := ascii "node-a"
  targetNode := ascii "node-b"
  membershipEpoch := 4
  fencingGeneration := 9
  sequence := 1
  payload := ascii "payload"

/-- The calls before a change of authority. -/
def oneEnqueued : List Action := [.enqueue firstRecord 4 9]

theorem entries_oneEnqueued : (reached 2 oneEnqueued).entries = [{ record := firstRecord }] := by
  decide +kernel

theorem recoverable_oneEnqueued :
    Recoverable (reached 2 oneEnqueued) 0 firstRecord 4 9 := by
  have hget : (reached 2 oneEnqueued).entries[0]? = some { record := firstRecord } := by
    rw [entries_oneEnqueued]
    rfl
  exact (recoverable_iff oneEnqueued 4 9 hget (by decide)).mpr ⟨rfl, rfl⟩

/-- After the epoch has advanced the pending entry is stuck, with a free slot beside it. -/
theorem not_recoverable_oneEnqueued :
    (reached 2 oneEnqueued).entries = [{ record := firstRecord }] ∧
      ¬Recoverable (reached 2 oneEnqueued) 0 firstRecord 5 9 := by
  have hget : (reached 2 oneEnqueued).entries[0]? = some { record := firstRecord } := by
    rw [entries_oneEnqueued]
    rfl
  have hstale : ¬(firstRecord.membershipEpoch = 5 ∧ firstRecord.fencingGeneration = 9) := by decide
  refine ⟨entries_oneEnqueued, ?_⟩
  rintro ⟨actions, hretries, happlied⟩
  rw [after_retries hget hstale hretries] at happlied
  exact not_appliedFor (ordered_reached 2 oneEnqueued) (List.mem_of_getElem? hget) (by decide)
    happlied

end ReplicaQueue

end Ubiq.Replication
