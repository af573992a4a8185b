import Ubiq.Settlement.Coordinator

/-!
# One journal file and the process that owns it

A run of the settlement system is a schedule of calls on one journal. The
process may die between calls (`restart`) or inside the append of a `persist`,
after any number of bytes of the line (`crash`); a fresh coordinator takes over.

* `exec` executes one call and returns what an observer sees of it.
* `persisted` collects the records whose `persist` returned successfully.
* `step_poisoned` is the fence: a poisoned coordinator never writes again.
-/

namespace Ubiq.Settlement

open Foundation

/-- The journal and the coordinator in memory. -/
structure System where
  disk : Disk := {}
  coordinator : Coordinator := Coordinator.init
deriving DecidableEq, Repr

/-- A call of the process, or its death. `crash` dies inside `persist` with
`written` bytes of the line in the file. -/
inductive Call
  | recover (fault : Option ReplayFault)
  | persist (snapshot : Record) (fault : Option PersistFault)
  | commitSettlementAndAck (snapshot : Record) (ackSubject : Bytes)
      (fault : Option PersistFault) (published : Bool)
  | ackIfAlreadySettled (idempotencyKey ackSubject : Bytes) (published : Bool)
  | restart
  | crash (snapshot : Record) (written : Nat)
deriving DecidableEq, Repr

/-- Calls on the coordinator in memory; the other two replace it. -/
def Call.inProcess : Call → Bool
  | .restart | .crash _ _ => false
  | _ => true

/-- The snapshot that a call is about to persist. -/
def Call.snapshot? : Call → Option Record
  | .persist snapshot _ | .commitSettlementAndAck snapshot _ _ _ | .crash snapshot _ => some snapshot
  | _ => none

/-- What is observed of a call: the returned values, the records a recovery
visited, the record that `persist` made, and whether `js.ack` was invoked. -/
inductive Outcome
  | recovered (visited : List Record) (result : Except Error Nat)
  | persisted (record : Record) (result : Except Error UInt64)
  | committed (record : Record) (stored : Except Error UInt64) (acked : Bool)
      (result : Except Error Unit)
  | redelivered (acked : Bool) (result : Except Error Bool)
  | died

/-- Execute one call. -/
def System.exec (store : Store) (system : System) : Call → System × Outcome
  | .recover fault =>
      let recovery := Coordinator.recover store system.disk system.coordinator fault
      ({ system with coordinator := recovery.coordinator },
        .recovered recovery.visited recovery.result)
  | .persist snapshot fault =>
      let persistence :=
        Coordinator.persist store system.disk system.coordinator snapshot fault
      (⟨persistence.disk, persistence.coordinator⟩,
        .persisted (system.coordinator.stamp snapshot) persistence.result)
  | .commitSettlementAndAck snapshot ackSubject fault published =>
      let commit := Coordinator.commitSettlementAndAck store system.disk system.coordinator
        snapshot ackSubject fault published
      (⟨commit.disk, commit.coordinator⟩,
        .committed (system.coordinator.stamp snapshot) commit.persisted commit.acked commit.result)
  | .ackIfAlreadySettled idempotencyKey ackSubject published =>
      let answer :=
        Coordinator.ackIfAlreadySettled system.coordinator idempotencyKey ackSubject published
      (system, .redelivered answer.1 answer.2)
  | .restart => ({ system with coordinator := Coordinator.init }, .died)
  | .crash snapshot written =>
      -- the memory of the process is gone, whatever `persist` would have made of it
      let persistence := Coordinator.persist store system.disk system.coordinator snapshot
        (some (.append (.write written)))
      (⟨persistence.disk, Coordinator.init⟩, .died)

/-- The state after a call. -/
def System.step (store : Store) (system : System) (call : Call) : System :=
  (system.exec store call).1

/-- The observation of a call. -/
def System.outcome (store : Store) (system : System) (call : Call) : Outcome :=
  (system.exec store call).2

/-- The state after a schedule. -/
def System.run (store : Store) (system : System) (schedule : List Call) : System :=
  Execution.run (System.step store) system schedule

/-- The states a process reaches that was started on the journal `disk`. -/
def System.Reachable (store : Store) (disk : Disk) (system : System) : Prop :=
  ∃ schedule : List Call, (∀ call ∈ schedule, call.inProcess = true) ∧
    System.run store ⟨disk, Coordinator.init⟩ schedule = system

/-- The record that a call persisted successfully, if it did. -/
def Outcome.stored : Outcome → List Record
  | .persisted record (.ok _) => [record]
  | .committed record (.ok _) _ _ => [record]
  | _ => []

/-- The records whose `persist` returned successfully, in order. -/
def System.persisted (store : Store) : System → List Call → List Record
  | _, [] => []
  | system, call :: rest =>
      (system.outcome store call).stored ++ System.persisted store (system.step store call) rest

/-- Whether `persist` gets as far as writing a line for this snapshot. -/
def System.writes (store : Store) (system : System) (snapshot : Record) : Bool :=
  system.coordinator.requireReady = .ok () ∧
    system.coordinator.projection.validate (system.coordinator.stamp snapshot) = .ok () ∧
    store.admits system.disk (system.coordinator.stamp snapshot) = true

/-- Whether a call starts to write a line. -/
def System.appending (store : Store) (system : System) : Call → Bool
  | .persist snapshot _ | .crash snapshot _ => system.writes store snapshot
  | .commitSettlementAndAck snapshot _ _ _ =>
      -- an unsettled snapshot is refused before `persist` is called
      snapshot.deliveryState.settled && system.writes store snapshot
  | _ => false

/-! ## What a call does to the system -/

/-- `commitSettlementAndAck` is `persist` as far as the system is concerned, or
nothing at all. -/
theorem step_commit (store : Store) (system : System) (snapshot : Record) (ackSubject : Bytes)
    (fault : Option PersistFault) (published : Bool) :
    system.step store (.commitSettlementAndAck snapshot ackSubject fault published) =
      if snapshot.deliveryState.settled then system.step store (.persist snapshot fault)
      else system := by
  by_cases hsettled : snapshot.deliveryState.settled = true
  · simp only [System.step, System.exec, Coordinator.commitSettlementAndAck, hsettled,
      Bool.not_true, Bool.false_eq_true, if_false, if_true]
    cases (Coordinator.persist store system.disk system.coordinator snapshot fault).result with
    | error err => rfl
    | ok sequence => rfl
  · simp [System.step, System.exec, Coordinator.commitSettlementAndAck, hsettled]

variable {store : Store} {system : System}

/-- **Calls of a process.** As far as the system is concerned, a call of the process
does nothing, recovers or persists. -/
theorem step_inProcess {motive : System → Prop} (hself : motive system)
    (hrecover : ∀ fault, motive (system.step store (.recover fault)))
    (hpersist : ∀ snapshot fault, motive (system.step store (.persist snapshot fault)))
    {call : Call} (hcall : call.inProcess = true) : motive (system.step store call) := by
  cases call with
  | recover fault => exact hrecover fault
  | persist snapshot fault => exact hpersist snapshot fault
  | commitSettlementAndAck snapshot ackSubject fault published =>
      rw [step_commit]
      split
      · exact hpersist snapshot fault
      · exact hself
  | ackIfAlreadySettled idempotencyKey ackSubject published => exact hself
  | restart => cases hcall
  | crash snapshot written => cases hcall

/-- A settled snapshot is stored by `commitSettlementAndAck` when `persist` stores it. -/
theorem stored_commit {snapshot : Record} {ackSubject : Bytes} {fault : Option PersistFault}
    {published : Bool} (hsettled : snapshot.deliveryState.settled = true) :
    (system.outcome store
        (.commitSettlementAndAck snapshot ackSubject fault published)).stored =
      (system.outcome store (.persist snapshot fault)).stored := by
  simp only [System.outcome, System.exec, Coordinator.commitSettlementAndAck, hsettled,
    Bool.not_true, Bool.false_eq_true, if_false]
  cases (Coordinator.persist store system.disk system.coordinator snapshot fault).result with
  | error err => rfl
  | ok sequence => rfl

/-- **The fence.** Within its process a poisoned coordinator stays poisoned and
leaves the journal alone. -/
theorem step_poisoned {call : Call} (hpoisoned : system.coordinator.poisoned = true)
    (hcall : call.inProcess = true) :
    (system.step store call).coordinator.poisoned = true ∧
      (system.step store call).disk = system.disk := by
  refine step_inProcess (motive := fun next =>
    next.coordinator.poisoned = true ∧ next.disk = system.disk) ⟨hpoisoned, rfl⟩ ?_ ?_ hcall
  · intro fault
    refine ⟨?_, rfl⟩
    show (Coordinator.recover store system.disk system.coordinator fault).coordinator.poisoned =
      true
    unfold Coordinator.recover
    by_cases hrecovered : system.coordinator.recovered = true
    · rw [if_pos hrecovered]
      exact hpoisoned
    · rw [if_neg hrecovered, if_pos hpoisoned]
      exact hpoisoned
  · intro snapshot fault
    have hsame : system.step store (.persist snapshot fault) = system := by
      simp [System.step, System.exec, Coordinator.persist, Coordinator.requireReady, hpoisoned]
    rw [hsame]
    exact ⟨hpoisoned, rfl⟩

/-- The fence over a whole run of the process. -/
theorem run_poisoned {schedule : List Call} (hpoisoned : system.coordinator.poisoned = true)
    (hcalls : ∀ call ∈ schedule, call.inProcess = true) :
    (system.run store schedule).coordinator.poisoned = true ∧
      (system.run store schedule).disk = system.disk := by
  refine Execution.invariant_run_of_forall
    (motive := fun next : System => next.coordinator.poisoned = true ∧ next.disk = system.disk) ?_
    ⟨hpoisoned, rfl⟩ hcalls
  rintro next call ⟨hstill, hdisk⟩ hcall
  have hstep : (next.step store call).coordinator.poisoned = true ∧
      (next.step store call).disk = next.disk := step_poisoned hstill hcall
  exact ⟨hstep.1, hstep.2.trans hdisk⟩

end Ubiq.Settlement
