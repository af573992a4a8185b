import Ubiq.Message.Model
import Ubiq.Foundation.Table
import Ubiq.Foundation.Execution

/-!
# The control store

`ControlStore` of `store.go` over its three delivery tables. Every SQL statement
is one function on the database, and the transaction of `Settle` is one step; a
run is a schedule of such steps by any number of workers, each with its own clock
reading.

`Publish`, `Claim` and `MarkReceived` decide their result with one statement. The
insert into `delivery_history` that follows is a statement of its own whose
failure is ignored; it stays in `pending` until it is scheduled. The same holds
for the second query of a `Publish` that met its idempotency key.
-/

namespace Ubiq.Control

open Foundation
open Message

/-- A row of `events`. -/
structure EventRow where
  id : Bytes
  idempotencyKey : Bytes
  eventName : Bytes
  envelope : Bytes
  state : DeliveryState
  owner : Option Bytes := none
  leaseUntilMs : Option Int := none
  attempt : Nat := 0
  fencingToken : Nat := 0
  createdAtMs : Int
  updatedAtMs : Int
deriving DecidableEq, Repr

/-- A row of `settlements`. -/
structure SettlementRow where
  eventId : Bytes
  kind : ControlKind
  workerId : Bytes
  fencingToken : Nat
  atMs : Int
  evidence : Bytes
deriving DecidableEq, Repr

/-- A row of `delivery_history`; `seq` is its position. -/
structure HistoryRow where
  eventId : Bytes
  state : DeliveryState
  workerId : Option Bytes := none
  fencingToken : Option Nat := none
  atMs : Int
  details : Option Bytes := none
deriving DecidableEq, Repr

/-- The delivery tables. -/
structure Database where
  events : List EventRow := []
  settlements : List SettlementRow := []
  history : List HistoryRow := []
deriving DecidableEq, Repr

/-- The errors of `store.go`. `json` and `sql` stand for what `encoding/json` and
the database return. -/
inductive Error
  | nothingAvailable
  | staleLease
  | invalidTransition
  | workerAndLease
  | model (err : ModelError)
  | json
  | sql
deriving DecidableEq, Repr

/-- The messages of the errors that the store makes itself. -/
def Error.message (quote : Bytes → Bytes) : Error → Option Bytes
  | .nothingAvailable => some (ascii "no event available")
  | .staleLease => some (ascii "stale lease or fencing token")
  | .invalidTransition => some (ascii "invalid delivery transition")
  | .workerAndLease => some (ascii "worker and positive lease are required")
  | .model err => some (err.message quote)
  | .json | .sql => none

/-- `encoding/json` as the store uses it. -/
structure Json where
  valid : Bytes → Bool
  marshal : Envelope → Option Bytes
  unmarshal : Bytes → Option Envelope

namespace Database

/-- The row of an event. -/
def event (db : Database) (id : Bytes) : Option EventRow :=
  Table.lookup EventRow.id id db.events

/-- The settlement of an event. -/
def settlement (db : Database) (id : Bytes) : Option SettlementRow :=
  Table.lookup SettlementRow.eventId id db.settlements

/-! ## Statements -/

/-- The result of an `INSERT ... ON CONFLICT DO NOTHING`. -/
inductive Insert
  | inserted (db : Database)
  | ignored
  | failed

/-- `INSERT INTO events ... ON CONFLICT(idempotency_key) DO NOTHING`. SQLite checks
the constraint of the conflict target first; a conflict of the primary key alone
fails the statement. -/
def insertEvent (db : Database) (row : EventRow) : Insert :=
  if db.events.any fun other => other.idempotencyKey = row.idempotencyKey then .ignored
  else if db.events.any fun other => other.id = row.id then .failed
  else .inserted { db with events := db.events ++ [row] }

/-- `UPDATE events`. -/
def updateEvents (db : Database) (test : EventRow → Bool) (change : EventRow → EventRow) :
    Database :=
  { db with events := Table.update test change db.events }

/-- `state IN ('published','expired')`. -/
def claimable (row : EventRow) : Bool :=
  row.state = .published ∨ row.state = .expired

/-- `ORDER BY created_at_ms, id`. -/
def sortsBefore (first second : EventRow) : Bool :=
  first.createdAtMs < second.createdAtMs ∨
    first.createdAtMs = second.createdAtMs ∧ first.id ≤ second.id

/-- The `candidate` of a claim: the first claimable row in that order. -/
def candidate : List EventRow → Option EventRow
  | [] => none
  | row :: rest =>
      match candidate rest with
      | none => if claimable row then some row else none
      | some best => if claimable row ∧ sortsBefore row best then some row else some best

/-- The columns that a claim sets. -/
def leaseRow (workerId : Bytes) (untilMs now : Int) (row : EventRow) : EventRow :=
  { row with
    state := .leased
    owner := some workerId
    leaseUntilMs := some untilMs
    attempt := row.attempt + 1
    fencingToken := row.fencingToken + 1
    updatedAtMs := now }

/-- The update of `Claim` with its `RETURNING` row. -/
def claimUpdate (db : Database) (workerId : Bytes) (untilMs now : Int) :
    Database × Option EventRow :=
  match candidate db.events with
  | none => (db, none)
  | some chosen =>
      let next := db.updateEvents (fun row => row.id = chosen.id) (leaseRow workerId untilMs now)
      (next, next.event chosen.id)

/-- `lease_until_ms > now`, false for `NULL`. -/
def leaseAfter (row : EventRow) (now : Int) : Bool :=
  row.leaseUntilMs.any fun untilMs => now < untilMs

/-- The `WHERE` clause of `MarkReceived`. -/
def receivable (frame : ControlFrame) (now : Int) (row : EventRow) : Bool :=
  row.id = frame.eventId ∧ row.owner = some frame.workerId ∧
    row.fencingToken = frame.fencingToken.toNat ∧ row.state = .leased ∧ leaseAfter row now

/-- The `WHERE` clause of `Settle`. -/
def settleable (frame : ControlFrame) (now : Int) (row : EventRow) : Bool :=
  row.id = frame.eventId ∧ row.owner = some frame.workerId ∧
    row.fencingToken = frame.fencingToken.toNat ∧
    (row.state = .leased ∨ row.state = .received) ∧ leaseAfter row now

/-- The `WHERE` clause of `RequeueExpired`. -/
def overdue (now : Int) (row : EventRow) : Bool :=
  (row.state = .leased ∨ row.state = .received) ∧
    row.leaseUntilMs.any fun untilMs => untilMs ≤ now

/-- The columns that `MarkReceived` sets. -/
def receiveRow (now : Int) (row : EventRow) : EventRow :=
  { row with state := .received, updatedAtMs := now }

/-- The columns that `Settle` and `RequeueExpired` set. -/
def releaseRow (target : DeliveryState) (now : Int) (row : EventRow) : EventRow :=
  { row with state := target, owner := none, leaseUntilMs := none, updatedAtMs := now }

theorem id_leaseRow (workerId : Bytes) (untilMs now : Int) (row : EventRow) :
    (leaseRow workerId untilMs now row).id = row.id := rfl

theorem id_receiveRow (now : Int) (row : EventRow) : (receiveRow now row).id = row.id := rfl

theorem id_releaseRow (target : DeliveryState) (now : Int) (row : EventRow) :
    (releaseRow target now row).id = row.id := rfl

/-- `INSERT INTO settlements ... ON CONFLICT(event_id) DO NOTHING`. -/
def insertSettlement (db : Database) (row : SettlementRow) : Database :=
  if db.settlements.any fun other => other.eventId = row.eventId then db
  else { db with settlements := db.settlements ++ [row] }

/-- `INSERT INTO delivery_history`. -/
def insertHistory (db : Database) (row : HistoryRow) : Database :=
  { db with history := db.history ++ [row] }

end Database

/-! ## Operations -/

/-- A statement that a call in flight has yet to execute. -/
inductive Pending
  | history (row : HistoryRow)
  | selectEnvelope (idempotencyKey : Bytes)
deriving DecidableEq, Repr

/-- What a call returns; `inFlight` is a call that has not returned yet, `logged` a
finished history insert. -/
inductive Reply
  | published (envelope : Envelope) (created : Bool)
  | claimed (event : ClaimedEvent)
  | done
  | requeued (rows : Nat)
  | failed (err : Error)
  | inFlight
  | logged
deriving DecidableEq, Repr

/-- The effect of a call's deciding statement: the database, the statements that
are left to execute, the reply, and the row that a claim has leased. -/
structure Effect where
  db : Database
  pending : List Pending := []
  reply : Reply
  leased : Option EventRow := none

/-- `Publish`; `fails` is whether the database refuses the statement. -/
def publish (json : Json) (db : Database) (envelope : Envelope) (now : Int) (fails : Bool) :
    Effect :=
  match envelope.validate json.valid with
  | .error err => { db := db, reply := .failed (.model err) }
  | .ok () =>
      match json.marshal envelope with
      | none => { db := db, reply := .failed .json }
      | some raw =>
          if fails then { db := db, reply := .failed .sql }
          else
            match db.insertEvent
                { id := envelope.id, idempotencyKey := envelope.idempotencyKey,
                  eventName := envelope.event, envelope := raw, state := .published,
                  createdAtMs := envelope.createdAtMs, updatedAtMs := now } with
            | .failed => { db := db, reply := .failed .sql }
            | .inserted next =>
                { db := next
                  pending := [.history { eventId := envelope.id, state := .published, atMs := now }]
                  reply := .published envelope true }
            | .ignored =>
                { db := db
                  pending := [.selectEnvelope envelope.idempotencyKey]
                  reply := .inFlight }

/-- `now + lease.Milliseconds()` in 64 bits; a duration counts nanoseconds and
`Milliseconds` truncates. -/
def claimUntil (now lease : Int) : Int :=
  Int.bmod (now + lease.tdiv 1000000) (2 ^ 64)

/-- `Claim`. The row stays leased when its envelope does not unmarshal. -/
def claim (json : Json) (db : Database) (workerId : Bytes) (lease now : Int) (fails : Bool) :
    Effect :=
  if workerId = [] ∨ lease ≤ 0 then { db := db, reply := .failed .workerAndLease }
  else if fails then { db := db, reply := .failed .sql }
  else
    match db.claimUpdate workerId (claimUntil now lease) now with
    | (next, none) => { db := next, reply := .failed .nothingAvailable }
    | (next, some row) =>
        match json.unmarshal row.envelope with
        | none => { db := next, reply := .failed .json, leased := some row }
        | some envelope =>
            { db := next
              pending := [.history
                { eventId := envelope.id, state := .leased, workerId := some workerId,
                  fencingToken := some row.fencingToken, atMs := now }]
              reply := .claimed
                { envelope := envelope
                  lease :=
                    { eventId := envelope.id, workerId := workerId,
                      untilMs := claimUntil now lease, attempt := row.attempt,
                      fencingToken := row.fencingToken }
                  state := row.state }
              leased := some row }

def markReceived (db : Database) (frame : ControlFrame) (now : Int) (fails : Bool) : Effect :=
  if frame.kind ≠ .received then { db := db, reply := .failed .invalidTransition }
  else
    match frame.validate with
    | .error err => { db := db, reply := .failed (.model err) }
    | .ok () =>
        if fails then { db := db, reply := .failed .sql }
        else
          let next := db.updateEvents (Database.receivable frame now) (Database.receiveRow now)
          if Table.affected (Database.receivable frame now) db.events ≠ 1 then
            { db := next, reply := .failed .staleLease }
          else
            { db := next
              pending := [.history
                { eventId := frame.eventId, state := .received, workerId := some frame.workerId,
                  fencingToken := some frame.fencingToken.toNat, atMs := frame.atMs,
                  details := some frame.evidence }]
              reply := .done }

/-- The `target` of a settlement. -/
def settleTarget (kind : ControlKind) : DeliveryState :=
  if kind = .settledError then .settledError else .settledOk

/-- `Settle`. A failure anywhere in the transaction rolls it back. -/
def settle (db : Database) (frame : ControlFrame) (now : Int) (fails : Bool) : Effect :=
  if frame.kind ≠ .settledOk ∧ frame.kind ≠ .settledError then
    { db := db, reply := .failed .invalidTransition }
  else
    match frame.validate with
    | .error err => { db := db, reply := .failed (.model err) }
    | .ok () =>
        if fails then { db := db, reply := .failed .sql }
        else if Table.affected (Database.settleable frame now) db.events ≠ 1 then
          { db := db, reply := .failed .staleLease }
        else
          let updated := db.updateEvents (Database.settleable frame now)
            (Database.releaseRow (settleTarget frame.kind) now)
          let settled := updated.insertSettlement
            { eventId := frame.eventId, kind := frame.kind, workerId := frame.workerId,
              fencingToken := frame.fencingToken.toNat, atMs := frame.atMs,
              evidence := frame.evidence }
          { db := settled.insertHistory
              { eventId := frame.eventId, state := settleTarget frame.kind,
                workerId := some frame.workerId, fencingToken := some frame.fencingToken.toNat,
                atMs := frame.atMs, details := some frame.evidence }
            reply := .done }

def requeueExpired (db : Database) (now : Int) (fails : Bool) : Effect :=
  if fails then { db := db, reply := .failed .sql }
  else
    { db := db.updateEvents (Database.overdue now) (Database.releaseRow .expired now)
      reply := .requeued (Table.affected (Database.overdue now) db.events) }

def state (db : Database) (eventId : Bytes) : Except Error DeliveryState :=
  match db.event eventId with
  | some row => .ok row.state
  | none => .error .sql

/-- A statement of a call in flight. -/
def resume (json : Json) (db : Database) (pending : Pending) (fails : Bool) : Effect :=
  match pending with
  | .history row => { db := if fails then db else db.insertHistory row, reply := .logged }
  | .selectEnvelope idempotencyKey =>
      if fails then { db := db, reply := .failed .sql }
      else
        match db.events.find? fun row => row.idempotencyKey = idempotencyKey with
        | none => { db := db, reply := .failed .sql }
        | some row =>
            match json.unmarshal row.envelope with
            | none => { db := db, reply := .failed .json }
            | some existing => { db := db, reply := .published existing false }

/-! ## Runs -/

/-- The store and the statements that calls in flight have yet to execute. -/
structure ControlStore where
  db : Database := {}
  pending : List Pending := []
deriving DecidableEq, Repr

/-- A call with its clock reading, or the next statement of a call in flight. -/
inductive Action
  | publish (envelope : Envelope) (now : Int) (fails : Bool)
  | claim (workerId : Bytes) (lease now : Int) (fails : Bool)
  | markReceived (frame : ControlFrame) (now : Int) (fails : Bool)
  | settle (frame : ControlFrame) (now : Int) (fails : Bool)
  | requeueExpired (now : Int) (fails : Bool)
  | resume (index : Nat) (fails : Bool)
deriving DecidableEq, Repr

/-- The effect of an action. -/
def ControlStore.effect (json : Json) (store : ControlStore) : Action → Effect
  | .publish envelope now fails => publish json store.db envelope now fails
  | .claim workerId lease now fails => claim json store.db workerId lease now fails
  | .markReceived frame now fails => markReceived store.db frame now fails
  | .settle frame now fails => settle store.db frame now fails
  | .requeueExpired now fails => requeueExpired store.db now fails
  | .resume index fails =>
      match store.pending[index]? with
      | none => { db := store.db, reply := .inFlight }
      | some pending => resume json store.db pending fails

/-- The state after an action. -/
def ControlStore.step (json : Json) (store : ControlStore) (action : Action) : ControlStore where
  db := (store.effect json action).db
  pending :=
    (match action with
      | .resume index _ => store.pending.eraseIdx index
      | _ => store.pending) ++ (store.effect json action).pending

/-- The state after a schedule. -/
def ControlStore.run (json : Json) (store : ControlStore) (schedule : List Action) : ControlStore :=
  Execution.run (ControlStore.step json) store schedule

end Ubiq.Control
