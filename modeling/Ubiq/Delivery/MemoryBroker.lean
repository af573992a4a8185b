import Ubiq.Core.Event
import Ubiq.Foundation.Execution
import Ubiq.Foundation.Keyed
import Ubiq.Foundation.Slots

/-!
# The memory broker

`MemoryBroker` of `delivery.zig`, the reference broker of the Zig core, and the state
changes of `settlement.zig` that it follows. The slice `records[0..len]` of its array is
a list that is no longer than the capacity. Times and attempts are natural numbers, so
the additions of `claim` do not overflow.

A call returns the broker next to its result, also when it fails: an operation works on
the record in place.
-/

namespace Ubiq.Delivery

open Foundation
open Ubiq.Core (Envelope)
open Message (EventState)

inductive DeliveryState
  | published
  | leased
  | received
  | settledOk
  | settledError
  | expired
deriving DecidableEq, Repr

inductive DeliveryError
  | queueFull
  | nothingAvailable
  | invalidRecord
  | notLeaseOwner
  | invalidTransition
deriving DecidableEq, Repr

structure Lease where
  owner : Bytes
  untilMs : Nat
  attempt : Nat
deriving DecidableEq, Repr

def Lease.active (lease : Lease) (nowMs : Nat) : Bool := nowMs < lease.untilMs

structure DeliveryRecord where
  envelope : Envelope
  state : DeliveryState := .published
  lease : Option Lease := none
deriving DecidableEq, Repr

/-- `settled_ok` or `settled_error`. -/
def DeliveryState.isSettled (state : DeliveryState) : Bool :=
  state = .settledOk ∨ state = .settledError

def DeliveryRecord.isSettled (record : DeliveryRecord) : Bool := record.state.isSettled

/-! ## State changes -/

inductive ControlKind
  | received
  | settledOk
  | settledError
  | leaseExpired
deriving DecidableEq, Repr

/-- A worker has the record: `current == .leased or current == .received`. -/
def DeliveryState.inWork (state : DeliveryState) : Bool :=
  state = .leased ∨ state = .received

/-- `settlement.transition`; `none` is `InvalidTransition`. -/
def transition (current : DeliveryState) : ControlKind → Option DeliveryState
  | .received => if current = .leased then some .received else none
  | .settledOk => if current.inWork then some .settledOk else none
  | .settledError => if current.inWork then some .settledError else none
  | .leaseExpired => if current.inWork then some .expired else none

def needsRedelivery (state : DeliveryState) : Bool :=
  state = .published ∨ state = .expired

/-! ## The broker -/

/-- `MemoryBroker(capacity)`. -/
structure MemoryBroker (capacity : Nat) where
  records : List DeliveryRecord := []
  bounded : records.length ≤ capacity := by exact Nat.zero_le _

/-- The key that publications are compared by. -/
def DeliveryRecord.key (record : DeliveryRecord) : Bytes := record.envelope.idempotencyKey

/-- The record that a claim leaves. -/
def DeliveryRecord.claimedBy (worker : Bytes) (nowMs leaseMs : Nat) (record : DeliveryRecord) :
    DeliveryRecord :=
  let nextAttempt :=
    match record.lease with
    | some lease => lease.attempt + 1
    | none => 1
  { record with
    state := .leased
    lease := some { owner := worker, untilMs := nowMs + leaseMs, attempt := nextAttempt } }

def DeliveryRecord.requireOwner (record : DeliveryRecord) (worker : Bytes) :
    Except DeliveryError Unit :=
  match record.lease with
  | none => .error .notLeaseOwner
  | some lease => if lease.owner ≠ worker then .error .notLeaseOwner else .ok ()

/-- What `markReceived` does with the record of its caller. -/
def DeliveryRecord.receive (record : DeliveryRecord) : Except DeliveryError DeliveryRecord :=
  if record.state ≠ .leased then .error .invalidTransition
  else .ok { record with state := .received }

/-- What `settle` does with the record of its caller. -/
def DeliveryRecord.settleWith (result : EventState) (record : DeliveryRecord) :
    Except DeliveryError DeliveryRecord :=
  if record.state ≠ .leased ∧ record.state ≠ .received then .error .invalidTransition
  else
    match result with
    | .ok => .ok { record with state := .settledOk, lease := none }
    | .error => .ok { record with state := .settledError, lease := none }
    | .request => .error .invalidTransition

/-- What `reapExpired` does with a record. -/
def DeliveryRecord.reap (nowMs : Nat) (record : DeliveryRecord) : DeliveryRecord :=
  if record.state = .leased ∨ record.state = .received then
    match record.lease with
    | some lease => if !lease.active nowMs then { record with state := .expired } else record
    | none => record
  else record

namespace MemoryBroker

variable {capacity : Nat}

/-- Change the record at an index. -/
def modify (broker : MemoryBroker capacity) (index : Nat)
    (change : DeliveryRecord → DeliveryRecord) : MemoryBroker capacity where
  records := broker.records.modify index change
  bounded := Slots.length_modify_le broker.bounded index change

def findByIdempotencyKey (broker : MemoryBroker capacity) (key : Bytes) : Option Nat :=
  broker.records.findIdx? fun record => record.key = key

def publish (broker : MemoryBroker capacity) (envelope : Envelope) :
    MemoryBroker capacity × Except DeliveryError Nat :=
  match broker.findByIdempotencyKey envelope.idempotencyKey with
  | some existing => (broker, .ok existing)
  | none =>
      if h : broker.records.length ≥ capacity then (broker, .error .queueFull)
      else
        ({ records := broker.records ++ [{ envelope := envelope }]
           bounded := Slots.length_concat_le _ (not_le.mp h) },
          .ok broker.records.length)

def claim (broker : MemoryBroker capacity) (worker : Bytes) (nowMs leaseMs : Nat) :
    MemoryBroker capacity × Except DeliveryError Nat :=
  match broker.records.findIdx? fun record => needsRedelivery record.state with
  | none => (broker, .error .nothingAvailable)
  | some index => (broker.modify index (.claimedBy worker nowMs leaseMs), .ok index)

/-- The calls of a worker on its record: the record must exist and be leased to the worker. -/
def onOwned (broker : MemoryBroker capacity) (index : Nat) (worker : Bytes)
    (change : DeliveryRecord → Except DeliveryError DeliveryRecord) :
    MemoryBroker capacity × Except DeliveryError Unit :=
  match broker.records[index]? with
  | none => (broker, .error .invalidRecord)
  | some record =>
      match record.requireOwner worker with
      | .error err => (broker, .error err)
      | .ok _ =>
          match change record with
          | .error err => (broker, .error err)
          | .ok next => (broker.modify index fun _ => next, .ok ())

def markReceived (broker : MemoryBroker capacity) (index : Nat) (worker : Bytes) :
    MemoryBroker capacity × Except DeliveryError Unit :=
  broker.onOwned index worker DeliveryRecord.receive

def settle (broker : MemoryBroker capacity) (index : Nat) (worker : Bytes)
    (result : EventState) : MemoryBroker capacity × Except DeliveryError Unit :=
  broker.onOwned index worker (DeliveryRecord.settleWith result)

def reapExpired (broker : MemoryBroker capacity) (nowMs : Nat) : MemoryBroker capacity where
  records := broker.records.map (DeliveryRecord.reap nowMs)
  bounded := by
    rw [List.length_map]
    exact broker.bounded

end MemoryBroker

/-! ## Runs -/

/-- The calls. -/
inductive Action
  | publish (envelope : Envelope)
  | claim (worker : Bytes) (nowMs leaseMs : Nat)
  | markReceived (index : Nat) (worker : Bytes)
  | settle (index : Nat) (worker : Bytes) (result : EventState)
  | reapExpired (nowMs : Nat)
deriving DecidableEq, Repr

/-- What a call returns. -/
inductive Reply
  | index (index : Nat)
  | done
  | failed (err : DeliveryError)
deriving DecidableEq, Repr

/-- The reply of a call that returns an index. -/
def Reply.ofIndex : Except DeliveryError Nat → Reply
  | .ok position => .index position
  | .error err => .failed err

/-- The reply of a call that returns nothing. -/
def Reply.ofUnit : Except DeliveryError Unit → Reply
  | .ok _ => .done
  | .error err => .failed err

/-- A call and what it returned. -/
structure Event where
  action : Action
  reply : Reply
deriving DecidableEq, Repr

namespace MemoryBroker

variable {capacity : Nat}

/-- A call on the broker. -/
def perform (broker : MemoryBroker capacity) : Action → MemoryBroker capacity × Reply
  | .publish envelope => (broker.publish envelope).map id .ofIndex
  | .claim worker nowMs leaseMs => (broker.claim worker nowMs leaseMs).map id .ofIndex
  | .markReceived index worker => (broker.markReceived index worker).map id .ofUnit
  | .settle index worker result => (broker.settle index worker result).map id .ofUnit
  | .reapExpired nowMs => (broker.reapExpired nowMs, .done)

/-- The broker after a call. -/
def step (broker : MemoryBroker capacity) (action : Action) : MemoryBroker capacity :=
  (broker.perform action).1

/-- The calls of a run with their replies. -/
def history (broker : MemoryBroker capacity) : List Action → List Event
  | [] => []
  | action :: rest => ⟨action, (broker.perform action).2⟩ :: (broker.step action).history rest

/-! ## What a call can do -/

/-- The effects of a call, with what makes each of them possible. -/
inductive Effect (broker : MemoryBroker capacity) : Action → MemoryBroker capacity → Reply → Prop
  | failed (action : Action) (err : DeliveryError) : Effect broker action broker (.failed err)
  | duplicate (envelope : Envelope) (index : Nat)
      (hfind : broker.findByIdempotencyKey envelope.idempotencyKey = some index) :
      Effect broker (.publish envelope) broker (.index index)
  | published (envelope : Envelope) (next : MemoryBroker capacity)
      (hnew : broker.findByIdempotencyKey envelope.idempotencyKey = none)
      (hrecords : next.records = broker.records ++ [{ envelope := envelope }]) :
      Effect broker (.publish envelope) next (.index broker.records.length)
  | claimed (worker : Bytes) (nowMs leaseMs index : Nat) (record : DeliveryRecord)
      (hget : broker.records[index]? = some record)
      (hstate : needsRedelivery record.state = true) :
      Effect broker (.claim worker nowMs leaseMs)
        (broker.modify index (.claimedBy worker nowMs leaseMs)) (.index index)
  | received (index : Nat) (record : DeliveryRecord) (lease : Lease)
      (hget : broker.records[index]? = some record) (hlease : record.lease = some lease)
      (hstate : record.state = .leased) :
      Effect broker (.markReceived index lease.owner)
        (broker.modify index fun _ => { record with state := .received }) .done
  | settled (index : Nat) (result : EventState) (record : DeliveryRecord) (lease : Lease)
      (target : DeliveryState) (hget : broker.records[index]? = some record)
      (hlease : record.lease = some lease) (hstate : record.state.inWork = true)
      (htarget : result = .ok ∧ target = .settledOk ∨ result = .error ∧ target = .settledError) :
      Effect broker (.settle index lease.owner result)
        (broker.modify index fun _ => { record with state := target, lease := none }) .done
  | reaped (nowMs : Nat) : Effect broker (.reapExpired nowMs) (broker.reapExpired nowMs) .done

theorem requireOwner_eq_ok {record : DeliveryRecord} {worker : Bytes}
    (h : record.requireOwner worker = .ok ()) :
    ∃ lease, record.lease = some lease ∧ lease.owner = worker := by
  unfold DeliveryRecord.requireOwner at h
  split at h
  · cases h
  · rename_i lease hlease
    refine ⟨lease, hlease, ?_⟩
    by_contra hne
    rw [if_pos hne] at h
    cases h

theorem receive_eq_ok {record next : DeliveryRecord} (h : record.receive = .ok next) :
    record.state = .leased ∧ next = { record with state := .received } := by
  unfold DeliveryRecord.receive at h
  split at h
  · cases h
  · rename_i hstate
    cases h
    exact ⟨not_not.mp hstate, rfl⟩

theorem settleWith_eq_ok {result : EventState} {record next : DeliveryRecord}
    (h : record.settleWith result = .ok next) :
    record.state.inWork = true ∧ ∃ target : DeliveryState,
      (result = .ok ∧ target = .settledOk ∨ result = .error ∧ target = .settledError) ∧
        next = { record with state := target, lease := none } := by
  unfold DeliveryRecord.settleWith at h
  split at h
  · cases h
  · rename_i hstate
    have hwork : record.state.inWork = true := by
      refine decide_eq_true ?_
      by_contra hnot
      exact hstate (not_or.mp hnot)
    refine ⟨hwork, ?_⟩
    cases result with
    | request => cases h
    | ok =>
        cases h
        exact ⟨.settledOk, Or.inl ⟨rfl, rfl⟩, rfl⟩
    | error =>
        cases h
        exact ⟨.settledError, Or.inr ⟨rfl, rfl⟩, rfl⟩

/-- The calls of a worker change the record that is leased to it, or nothing. -/
theorem onOwned_cases (broker : MemoryBroker capacity) (index : Nat) (worker : Bytes)
    (change : DeliveryRecord → Except DeliveryError DeliveryRecord) :
    (∃ err, broker.onOwned index worker change = (broker, .error err)) ∨
      ∃ record lease next, broker.records[index]? = some record ∧ record.lease = some lease ∧
        lease.owner = worker ∧ change record = .ok next ∧
        broker.onOwned index worker change = (broker.modify index fun _ => next, .ok ()) := by
  unfold onOwned
  cases hget : broker.records[index]? with
  | none => exact Or.inl ⟨_, rfl⟩
  | some record =>
      cases howner : record.requireOwner worker with
      | error err => exact Or.inl ⟨err, by simp only [howner]⟩
      | ok _ =>
          cases hchange : change record with
          | error err => exact Or.inl ⟨err, by simp only [howner, hchange]⟩
          | ok next =>
              obtain ⟨lease, hlease, hworker⟩ := requireOwner_eq_ok howner
              exact Or.inr ⟨record, lease, next, rfl, hlease, hworker, hchange,
                by simp only [howner, hchange]⟩

theorem effect_perform (broker : MemoryBroker capacity) (action : Action) :
    Effect broker action (broker.perform action).1 (broker.perform action).2 := by
  cases action with
  | publish envelope =>
      cases hfind : broker.findByIdempotencyKey envelope.idempotencyKey with
      | some existing =>
          simp only [perform, publish, hfind]
          exact .duplicate envelope existing hfind
      | none =>
          simp only [perform, publish, hfind]
          split
          · exact .failed _ _
          · refine .published envelope _ hfind ?_
            rfl
  | claim worker nowMs leaseMs =>
      cases hfind : broker.records.findIdx? (fun record => needsRedelivery record.state) with
      | none =>
          simp only [perform, claim, hfind]
          exact .failed _ _
      | some index =>
          simp only [perform, claim, hfind]
          obtain ⟨hlt, hstate, -⟩ := List.findIdx?_eq_some_iff_getElem.mp hfind
          exact .claimed worker nowMs leaseMs index _ (List.getElem?_eq_getElem hlt) hstate
  | markReceived index worker =>
      rcases broker.onOwned_cases index worker DeliveryRecord.receive with
        ⟨err, heq⟩ | ⟨record, lease, next, hget, hlease, rfl, hchange, heq⟩
      · simp only [perform, markReceived, heq]
        exact .failed _ _
      · simp only [perform, markReceived, heq]
        obtain ⟨hstate, rfl⟩ := receive_eq_ok hchange
        exact .received index record lease hget hlease hstate
  | settle index worker result =>
      rcases broker.onOwned_cases index worker (DeliveryRecord.settleWith result) with
        ⟨err, heq⟩ | ⟨record, lease, next, hget, hlease, rfl, hchange, heq⟩
      · simp only [perform, settle, heq]
        exact .failed _ _
      · simp only [perform, settle, heq]
        obtain ⟨hwork, target, htarget, rfl⟩ := settleWith_eq_ok hchange
        exact .settled index result record lease target hget hlease hwork htarget
  | reapExpired nowMs => exact .reaped nowMs

end MemoryBroker

end Ubiq.Delivery
