import Ubiq.Control.Store
import Ubiq.Foundation.Numeral

/-!
# The outbox

The table `outbox` of `store.go` and the three calls on it. `seq` is an
`AUTOINCREMENT` key and no row is deleted, so the rows are numbered from one in the
order of their insertion; the field `numbered` of the table says so.
-/

namespace Ubiq.Control

open Foundation

/-- A row of `outbox`. -/
structure OutboxRow where
  seq : Nat
  eventId : Bytes
  transport : Bytes
  payload : Bytes
  attempts : Nat := 0
  availableAtMs : Int
  deliveredAtMs : Option Int := none
deriving DecidableEq, Repr

/-- The table. -/
structure Outbox where
  rows : List OutboxRow := []
  numbered : rows.map OutboxRow.seq = List.range' 1 rows.length := by rfl

structure OutboxRecord where
  seq : Nat
  eventId : Bytes
  transport : Bytes
  payload : Bytes
  attempts : Nat
deriving DecidableEq, Repr

/-- The errors of the calls. -/
inductive OutboxError
  | invalidRecord
  | notPending (seq : Nat)
deriving DecidableEq, Repr

/-- Their messages. -/
def OutboxError.message : OutboxError → Bytes
  | .invalidRecord => ascii "invalid outbox record"
  | .notPending seq => ascii "outbox record " ++ Numeral.digits 10 seq ++ ascii " not pending"

namespace Outbox

/-- `INSERT INTO outbox(event_id,transport,payload,available_at_ms)`. -/
def insert (outbox : Outbox) (eventId transport payload : Bytes) (availableAtMs : Int) :
    Outbox where
  rows := outbox.rows ++
    [{ seq := outbox.rows.length + 1, eventId := eventId, transport := transport,
       payload := payload, availableAtMs := availableAtMs }]
  numbered := by
    rw [List.map_append, outbox.numbered, List.length_append, List.length_singleton,
      List.range'_concat]
    simp [Nat.add_comm]

def enqueueOutbox (outbox : Outbox) (eventId transport payload : Bytes) (availableAtMs : Int) :
    Except OutboxError Outbox :=
  if eventId = [] ∨ transport = [] ∨ payload = [] then .error .invalidRecord
  else .ok (outbox.insert eventId transport payload availableAtMs)

/-- The `WHERE` clause of `NextOutbox`. -/
def due (nowMs : Int) (row : OutboxRow) : Bool :=
  row.deliveredAtMs.isNone && decide (row.availableAtMs ≤ nowMs)

/-- `NextOutbox`; `none` is `ErrNothingAvailable`. -/
def nextOutbox (outbox : Outbox) (nowMs : Int) : Option OutboxRecord :=
  (outbox.rows.find? (due nowMs)).map fun row =>
    { seq := row.seq, eventId := row.eventId, transport := row.transport,
      payload := row.payload, attempts := row.attempts }

/-- The `WHERE` clause of `MarkOutboxDelivered`. -/
def pendingWith (seq : Nat) (row : OutboxRow) : Bool :=
  decide (row.seq = seq) && row.deliveredAtMs.isNone

/-- The column that `MarkOutboxDelivered` sets. -/
def deliverRow (atMs : Int) (row : OutboxRow) : OutboxRow :=
  { row with deliveredAtMs := some atMs }

theorem seq_deliverRow (atMs : Int) (row : OutboxRow) : (deliverRow atMs row).seq = row.seq := rfl

/-- `UPDATE outbox SET delivered_at_ms`. -/
def mark (outbox : Outbox) (seq : Nat) (atMs : Int) : Outbox where
  rows := Table.update (pendingWith seq) (deliverRow atMs) outbox.rows
  numbered := by
    rw [Table.map_key_update (seq_deliverRow atMs), outbox.numbered]
    simp [Table.update]

def markOutboxDelivered (outbox : Outbox) (seq : Nat) (atMs : Int) :
    Outbox × Except OutboxError Unit :=
  (outbox.mark seq atMs,
    if Table.affected (pendingWith seq) outbox.rows ≠ 1 then .error (.notPending seq) else .ok ())

section Rows

variable {outbox : Outbox} {row : OutboxRow}

theorem nodup_seq (outbox : Outbox) : (outbox.rows.map OutboxRow.seq).Nodup := by
  rw [outbox.numbered]
  exact List.nodup_range' ..

theorem enqueueOutbox_eq_ok {eventId transport payload : Bytes} (hevent : eventId ≠ [])
    (htransport : transport ≠ []) (hpayload : payload ≠ []) (availableAtMs : Int) :
    outbox.enqueueOutbox eventId transport payload availableAtMs =
      .ok (outbox.insert eventId transport payload availableAtMs) := by
  simp [enqueueOutbox, hevent, htransport, hpayload]

/-- The record is a row that is not delivered yet. -/
theorem row_of_nextOutbox {nowMs : Int} {record : OutboxRecord}
    (h : outbox.nextOutbox nowMs = some record) :
    ∃ row ∈ outbox.rows, row.deliveredAtMs = none ∧
      record = ⟨row.seq, row.eventId, row.transport, row.payload, row.attempts⟩ := by
  obtain ⟨row, hfind, rfl⟩ := Option.map_eq_some_iff.mp h
  have hdue : due nowMs row = true := List.find?_some hfind
  refine ⟨row, List.mem_of_find?_eq_some hfind, ?_, rfl⟩
  rw [due, Bool.and_eq_true] at hdue
  exact Option.isNone_iff_eq_none.mp hdue.1

/-- Marking a record leaves the rows with other numbers as they are. -/
theorem mem_mark_of_ne (hmem : row ∈ outbox.rows) {seq : Nat} (hne : row.seq ≠ seq)
    (atMs : Int) : row ∈ (outbox.mark seq atMs).rows := by
  refine List.mem_map.mpr ⟨row, hmem, ?_⟩
  simp [pendingWith, hne]

/-- Every row of the table stands for one from before the mark. -/
theorem exists_of_mem_mark {seq : Nat} {atMs : Int} (hmem : row ∈ (outbox.mark seq atMs).rows) :
    ∃ before ∈ outbox.rows, row = before ∨ row = deliverRow atMs before := by
  obtain ⟨before, hbefore, heq⟩ := List.mem_map.mp hmem
  refine ⟨before, hbefore, ?_⟩
  split at heq
  · exact Or.inr heq.symm
  · exact Or.inl heq.symm

end Rows

end Outbox

end Ubiq.Control
