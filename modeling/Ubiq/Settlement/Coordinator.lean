import Ubiq.Settlement.Journal
import Ubiq.Settlement.Projection
import Ubiq.Foundation.Execution

/-!
# The durable settlement coordinator

`durable_settlement.Coordinator` on top of the journal and the projection, and
the system it is part of: one journal file and the process that owns it.

A schedule of `Call`s is a run. A call carries what the environment decides:
which allocation or file operation fails, how many bytes of a line reach the
file before the process dies, whether JetStream takes the acknowledgement.

* `PersistEffect` and `RecoverEffect` list what the two writing operations can do,
  guards included; `persist_effect` and `recover_effect` say that this is all.
-/

namespace Ubiq.Settlement

open Foundation

/-- `durable_settlement.Coordinator`, without the allocator and the store. -/
structure Coordinator where
  projection : Projection := Projection.init
  nextSequence : UInt64 := 1
  recovered : Bool := false
  poisoned : Bool := false
deriving DecidableEq, Repr

/-- `std.math.add(u64, value, 1)`. -/
def addOne (value : UInt64) : Option UInt64 :=
  if value.toNat + 1 < 2 ^ 64 then some (value + 1) else none

theorem toNat_addOne {value next : UInt64} (h : addOne value = some next) :
    next.toNat = value.toNat + 1 := by
  unfold addOne at h
  split at h
  · next hlt =>
      cases h
      rw [UInt64.toNat_add]
      exact Nat.mod_eq_of_lt hlt
  · cases h

theorem addOne_eq_none_iff {value : UInt64} : addOne value = none ↔ value.toNat + 1 = 2 ^ 64 := by
  have hlt := value.toNat_lt
  unfold addOne
  split
  · next h => simp; omega
  · next h => simp; omega

/-- Where the environment makes `persist` fail. -/
inductive PersistFault
  | append (fault : AppendFault)
  | apply
deriving DecidableEq, Repr

/-- The part of a fault that `Store.append` sees. -/
def PersistFault.toAppend : Option PersistFault → Option AppendFault
  | some (.append fault) => some fault
  | _ => none

namespace Coordinator

def init : Coordinator := {}

def requireReady (coordinator : Coordinator) : Except Error Unit :=
  if coordinator.poisoned then .error .poisoned
  else if !coordinator.recovered then .error .recoveryRequired
  else .ok ()

/-- The coordinator accepts calls. -/
def Ready (coordinator : Coordinator) : Prop :=
  coordinator.requireReady = .ok ()

instance decidableReady (coordinator : Coordinator) : Decidable coordinator.Ready :=
  inferInstanceAs (Decidable (coordinator.requireReady = .ok ()))

/-- What a call to `recover` leaves and returns, with the records it visited. -/
structure Recovery where
  coordinator : Coordinator
  visited : List Record
  result : Except Error Nat

def recover (store : Store) (disk : Disk) (coordinator : Coordinator)
    (fault : Option ReplayFault) : Recovery :=
  if coordinator.recovered then ⟨coordinator, [], .error .alreadyRecovered⟩
  else if coordinator.poisoned then ⟨coordinator, [], .error .poisoned⟩
  else
    let replay := store.replay disk coordinator.projection Projection.apply fault
    match replay.result with
    | .error err =>
        ⟨{ coordinator with projection := replay.context, poisoned := true },
          replay.visited, .error err⟩
    | .ok count =>
        match addOne replay.context.lastSequence with
        | none =>
            ⟨{ coordinator with projection := replay.context },
              replay.visited, .error .sequenceExhausted⟩
        | some next =>
            ⟨{ coordinator with
                projection := replay.context, nextSequence := next, recovered := true },
              replay.visited, .ok count⟩

def isSettled (coordinator : Coordinator) (idempotencyKey : Bytes) : Bool :=
  coordinator.projection.isSettled idempotencyKey

/-- The record `persist` makes of a snapshot. -/
def stamp (coordinator : Coordinator) (snapshot : Record) : Record :=
  { snapshot with sequence := coordinator.nextSequence }

/-- What a call to `persist` leaves and returns. -/
structure Persistence where
  disk : Disk
  coordinator : Coordinator
  result : Except Error UInt64

def persist (store : Store) (disk : Disk) (coordinator : Coordinator) (snapshot : Record)
    (fault : Option PersistFault) : Persistence :=
  match coordinator.requireReady with
  | .error err => ⟨disk, coordinator, .error err⟩
  | .ok () =>
      let record := coordinator.stamp snapshot
      match coordinator.projection.validate record with
      | .error err => ⟨disk, coordinator, .error err⟩
      | .ok () =>
          let appended := store.append disk record (PersistFault.toAppend fault)
          match appended.2 with
          | .error err => ⟨appended.1, { coordinator with poisoned := true }, .error err⟩
          | .ok () =>
              match Projection.applyWith (fault ≠ some .apply) coordinator.projection record with
              | .error err => ⟨appended.1, { coordinator with poisoned := true }, .error err⟩
              | .ok projection =>
                  match addOne coordinator.nextSequence with
                  | none =>
                      ⟨appended.1, { coordinator with projection := projection, poisoned := true },
                        .error .sequenceExhausted⟩
                  | some next =>
                      ⟨appended.1,
                        { coordinator with projection := projection, nextSequence := next },
                        .ok record.sequence⟩

end Coordinator

/-- The subject prefix of JetStream acknowledgements. -/
def ackPrefix : Bytes := ascii "$JS.ACK."

/-- `JetStream.ack`; `published` is whether `publishRaw` succeeds. -/
def JetStream.ack (ackSubject : Bytes) (published : Bool) : Except Error Unit :=
  if !ackPrefix.isPrefixOf ackSubject then .error .invalidAckSubject
  else if published then .ok ()
  else .error .io

namespace Coordinator

/-- What a call to `commitSettlementAndAck` leaves and returns, and whether it
invoked `js.ack`. -/
structure Commit where
  disk : Disk
  coordinator : Coordinator
  acked : Bool
  persisted : Except Error UInt64
  result : Except Error Unit

def commitSettlementAndAck (store : Store) (disk : Disk) (coordinator : Coordinator)
    (snapshot : Record) (ackSubject : Bytes) (fault : Option PersistFault)
    (published : Bool) : Commit :=
  if !snapshot.deliveryState.settled then
    ⟨disk, coordinator, false, .error .invalidSettlementState, .error .invalidSettlementState⟩
  else
    let persistence := persist store disk coordinator snapshot fault
    match persistence.result with
    | .error err =>
        ⟨persistence.disk, persistence.coordinator, false, .error err, .error err⟩
    | .ok sequence =>
        ⟨persistence.disk, persistence.coordinator, true, .ok sequence,
          JetStream.ack ackSubject published⟩

/-- `Coordinator.ackIfAlreadySettled`: whether it invoked `js.ack`, and what it
returns. It changes nothing. -/
def ackIfAlreadySettled (coordinator : Coordinator) (idempotencyKey ackSubject : Bytes)
    (published : Bool) : Bool × Except Error Bool :=
  match coordinator.requireReady with
  | .error err => (false, .error err)
  | .ok () =>
      if !coordinator.isSettled idempotencyKey then (false, .ok false)
      else (true, (JetStream.ack ackSubject published).map fun _ => true)

/-! ## What the operations can do -/

theorem requireReady_ok_iff {coordinator : Coordinator} :
    coordinator.requireReady = .ok () ↔
      coordinator.poisoned = false ∧ coordinator.recovered = true := by
  unfold requireReady
  cases coordinator.poisoned <;> cases coordinator.recovered <;> simp

/-- Everything `persist` can do. It refuses and changes nothing; the append
fails, perhaps after part of the line; the line is written but the update of the
projection or of the counter fails; or all of it succeeds. After each failure
past the refusal the coordinator is poisoned. -/
inductive PersistEffect (store : Store) (disk : Disk) (coordinator : Coordinator)
    (snapshot : Record) : Persistence → Prop
  | refused (err : Error) :
      PersistEffect store disk coordinator snapshot ⟨disk, coordinator, .error err⟩
  | appendFailed (err : Error) (after : Disk) (torn : Bytes)
      (hready : coordinator.requireReady = .ok ())
      (hvalid : coordinator.projection.validate (coordinator.stamp snapshot) = .ok ())
      (hbytes : after.bytes = disk.bytes ++ torn)
      (hsynced : after.synced = disk.synced)
      (htorn : torn = [] ∨ store.admits disk (coordinator.stamp snapshot) ∧
        torn <+: store.line (coordinator.stamp snapshot)) :
      PersistEffect store disk coordinator snapshot
        ⟨after, { coordinator with poisoned := true }, .error err⟩
  | updateFailed (err : Error) (after : Disk) (projection : Projection)
      (hready : coordinator.requireReady = .ok ())
      (hvalid : coordinator.projection.validate (coordinator.stamp snapshot) = .ok ())
      (hadmits : store.admits disk (coordinator.stamp snapshot))
      (hbytes : after.bytes = disk.bytes ++ store.line (coordinator.stamp snapshot))
      (hsynced : after.synced = after.bytes.length)
      (hprojection : projection = coordinator.projection ∨
        projection = coordinator.projection.put (coordinator.stamp snapshot)) :
      PersistEffect store disk coordinator snapshot
        ⟨after, { coordinator with projection := projection, poisoned := true }, .error err⟩
  | stored (after : Disk) (next : UInt64)
      (hready : coordinator.requireReady = .ok ())
      (hvalid : coordinator.projection.validate (coordinator.stamp snapshot) = .ok ())
      (hadmits : store.admits disk (coordinator.stamp snapshot))
      (hbytes : after.bytes = disk.bytes ++ store.line (coordinator.stamp snapshot))
      (hsynced : after.synced = after.bytes.length)
      (hnext : addOne coordinator.nextSequence = some next) :
      PersistEffect store disk coordinator snapshot
        ⟨after, { coordinator with
            projection := coordinator.projection.put (coordinator.stamp snapshot)
            nextSequence := next },
          .ok coordinator.nextSequence⟩

theorem persist_effect (store : Store) (disk : Disk) (coordinator : Coordinator)
    (snapshot : Record) (fault : Option PersistFault) :
    PersistEffect store disk coordinator snapshot
      (persist store disk coordinator snapshot fault) := by
  unfold persist
  cases hready : coordinator.requireReady with
  | error err => exact .refused err
  | ok _ =>
      cases hvalid : coordinator.projection.validate (coordinator.stamp snapshot) with
      | error err =>
          simp only [hvalid]
          exact .refused err
      | ok _ =>
          simp only [hvalid]
          obtain ⟨err, herr, hbytes, hsynced⟩ |
              ⟨err, written, herr, hadmits, hbytes, hsynced⟩ |
              ⟨hok, -, hadmits, hbytes, hsynced⟩ :=
            append_cases store disk (coordinator.stamp snapshot) (PersistFault.toAppend fault)
          · simp only [herr]
            exact .appendFailed err _ [] hready hvalid (by simpa using hbytes) hsynced (Or.inl rfl)
          · simp only [herr]
            exact .appendFailed err _ _ hready hvalid hbytes hsynced
              (Or.inr ⟨hadmits, List.take_prefix _ _⟩)
          · have hlength : (store.append disk (coordinator.stamp snapshot)
                (PersistFault.toAppend fault)).1.synced =
                  (store.append disk (coordinator.stamp snapshot)
                    (PersistFault.toAppend fault)).1.bytes.length := by
              rw [hsynced, hbytes]
            simp only [hok, Projection.applyWith, hvalid]
            -- the record passed `validate`, so only memory can fail the update
            by_cases hmemory : fault = some .apply
            · simp only [hmemory, ne_eq, not_true_eq_false, decide_false, Bool.false_eq_true,
                if_false]
              subst hmemory
              exact .updateFailed .outOfMemory _ _ hready hvalid hadmits hbytes hlength
                (Or.inl rfl)
            · simp only [ne_eq, hmemory, not_false_eq_true, decide_true, if_true]
              cases hnext : addOne coordinator.nextSequence with
              | none =>
                  exact .updateFailed .sequenceExhausted _ _ hready hvalid hadmits hbytes hlength
                    (Or.inr rfl)
              | some next => exact .stored _ next hready hvalid hadmits hbytes hlength hnext

/-- Everything `recover` can do: refuse; fail and poison; find the sequence
numbers used up; or finish with the projection of the replayed records. -/
inductive RecoverEffect (store : Store) (disk : Disk) (coordinator : Coordinator)
    (fault : Option ReplayFault) : Recovery → Prop
  | refused (err : Error) (hrefused : coordinator.recovered = true ∨ coordinator.poisoned = true) :
      RecoverEffect store disk coordinator fault ⟨coordinator, [], .error err⟩
  | failed (err : Error) (projection : Projection) (visited : List Record)
      (hunrecovered : coordinator.recovered = false) :
      RecoverEffect store disk coordinator fault
        ⟨{ coordinator with projection := projection, poisoned := true }, visited, .error err⟩
  | exhausted (projection : Projection) (records : List Record)
      (hunrecovered : coordinator.recovered = false) (hsound : coordinator.poisoned = false)
      (hdecode : store.records disk = .ok records)
      (happly : coordinator.projection.applyAll records = .ok projection)
      (hnext : addOne projection.lastSequence = none) :
      RecoverEffect store disk coordinator fault
        ⟨{ coordinator with projection := projection }, records, .error .sequenceExhausted⟩
  | finished (projection : Projection) (records : List Record) (count : Nat) (next : UInt64)
      (hunrecovered : coordinator.recovered = false) (hsound : coordinator.poisoned = false)
      (hdecode : store.records disk = .ok records)
      (happly : coordinator.projection.applyAll records = .ok projection)
      (hnext : addOne projection.lastSequence = some next) :
      RecoverEffect store disk coordinator fault
        ⟨{ coordinator with
            projection := projection, nextSequence := next, recovered := true },
          records, .ok count⟩

/-- A replay that returns a count is a decoding of the whole journal followed by
the visitor on every record. -/
theorem replay_ok {store : Store} {disk : Disk} {projection : Projection}
    {fault : Option ReplayFault} {count : Nat}
    (h : (store.replay disk projection Projection.apply fault).result = .ok count) :
    store.records disk = .ok (store.replay disk projection Projection.apply fault).visited ∧
      projection.applyAll (store.replay disk projection Projection.apply fault).visited =
        .ok (store.replay disk projection Projection.apply fault).context := by
  unfold Store.replay at h ⊢
  unfold Store.records
  cases hfile : disk.file with
  | none =>
      simp only [Disk.lines, Disk.bytes, hfile, Option.getD_none, Lines.completeLines_nil]
      exact ⟨rfl, rfl⟩
  | some bytes =>
      simp only [hfile] at h ⊢
      -- a file that cannot be read, or is too long, gives no count
      by_cases hread : fault = some .readFile
      · simp [hread] at h
      by_cases hlong : bytes.length ≥ store.maxBytes.toNat
      · simp [hread, hlong] at h
      · simp only [hread, hlong, if_false] at h ⊢
        exact decode_of_replayLines h

/-- **A fresh coordinator recovers every journal that decodes.** -/
theorem recover_of_records {store : Store} {disk : Disk} {projection : Projection}
    {records : List Record} {next : UInt64} (hdecode : store.records disk = .ok records)
    (happly : Projection.init.applyAll records = .ok projection)
    (hsize : disk.bytes.length < store.maxBytes.toNat)
    (hnext : addOne projection.lastSequence = some next) :
    recover store disk init none =
      ⟨⟨projection, next, true, false⟩, records, .ok records.length⟩ := by
  have hreplay : store.replay disk Projection.init Projection.apply none = _ :=
    replay_of_decode hdecode happly hsize
  unfold recover
  simp only [init, Bool.false_eq_true, if_false, hreplay, hnext]

theorem recover_effect (store : Store) (disk : Disk) (coordinator : Coordinator)
    (fault : Option ReplayFault) :
    RecoverEffect store disk coordinator fault (recover store disk coordinator fault) := by
  unfold recover
  by_cases hrecovered : coordinator.recovered = true
  · rw [if_pos hrecovered]
    exact .refused _ (Or.inl hrecovered)
  by_cases hpoisoned : coordinator.poisoned = true
  · rw [if_neg hrecovered, if_pos hpoisoned]
    exact .refused _ (Or.inr hpoisoned)
  rw [if_neg hrecovered, if_neg hpoisoned]
  rw [Bool.not_eq_true] at hrecovered hpoisoned
  dsimp only
  split
  · next err _ => exact .failed err _ _ hrecovered
  · next count hresult =>
      obtain ⟨hdecode, happly⟩ := replay_ok hresult
      split
      · next hnext => exact .exhausted _ _ hrecovered hpoisoned hdecode happly hnext
      · next next hnext =>
          exact .finished _ _ count next hrecovered hpoisoned hdecode happly hnext

end Coordinator
end Ubiq.Settlement
