import Ubiq.Foundation.Bytes

/-!
# Settlement records

The append-only execution-control snapshot of `settlement_journal.zig`, the
errors of the settlement modules, the check `validateRecord` that both
directions of the journal make, and the line checksum.

`std.json` is not part of the repository. `RecordCodec` is what the journal
relies on from it: a record is written on one line and read back unchanged.
-/

namespace Ubiq.Settlement

open Foundation

inductive State
  | published
  | leased
  | received
  | settledOk
  | settledError
  | expired
deriving DecidableEq, Repr

/-- `state == .settled_ok or state == .settled_error`. -/
def State.settled (state : State) : Bool :=
  state = .settledOk ∨ state = .settledError

/-- `settlement_journal.Record`, with the defaults of the source. -/
structure Record where
  sequence : UInt64
  eventId : Bytes
  canonicalEvent : Bytes
  idempotencyKey : Bytes
  payloadReference : Bytes := []
  payload : Bytes := []
  deliveryState : State
  leaseOwner : Option Bytes := none
  leaseDeadlineMs : UInt64 := 0
  attempt : UInt32 := 0
  fencingGeneration : UInt64 := 0
  createdAtMs : UInt64 := 0
  updatedAtMs : UInt64 := 0
  correlationId : Bytes := []
  causationId : Bytes := []
deriving DecidableEq, Repr

/-- The error values of the settlement modules. Zig error names are global, so
`InvalidTransition` of the journal and of the projection are one value; `io` and
`outOfMemory` stand for the errors of the file system and of the allocator. -/
inductive Error
  | recordTooLarge
  | journalFull
  | invalidRecord
  | checksumMismatch
  | invalidChecksum
  | invalidTransition
  | sequenceRegression
  | idempotencyConflict
  | alreadyRecovered
  | poisoned
  | recoveryRequired
  | sequenceExhausted
  | invalidSettlementState
  | invalidAckSubject
  | syntaxError
  | streamTooLong
  | outOfMemory
  | io
deriving DecidableEq, Repr

def validateRecord (record : Record) : Except Error Unit :=
  if record.eventId.length = 0 ∨ record.canonicalEvent.length = 0 ∨
      record.idempotencyKey.length = 0 then
    .error .invalidRecord
  else if record.deliveryState.settled ∧ record.leaseOwner ≠ none then
    .error .invalidTransition
  else if (record.deliveryState = .leased ∨ record.deliveryState = .received) ∧
      record.leaseOwner = none then
    .error .invalidRecord
  else
    .ok ()

/-- `settlement_journal.checksum32`, 32-bit FNV-1a. -/
def checksum32 (bytes : Bytes) : UInt32 :=
  bytes.foldl (fun hash byte => (hash ^^^ byte.toUInt32) * 16777619) 2166136261

/-- What the journal relies on from `std.json`: `Stringify.valueAlloc` writes a
record as a non-empty text without a newline, and `parseFromSlice` reads that
text back as the same record. -/
structure RecordCodec where
  stringify : Record → Bytes
  parse : Bytes → Option Record
  parse_stringify : ∀ record, parse (stringify record) = some record
  newline_not_mem_stringify : ∀ record, newline ∉ stringify record
  stringify_ne_nil : ∀ record, stringify record ≠ []

end Ubiq.Settlement
