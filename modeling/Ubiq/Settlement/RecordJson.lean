import Ubiq.Settlement.Journal
import Ubiq.Foundation.Format

/-!
# The JSON of a settlement record

`std.json.Stringify.valueAlloc` writes the fields of `Record` in declaration
order, without blanks. `recordJson` is that text and a reader for it, hence a
`RecordCodec`: the assumptions of the journal about `std.json` are those of a
function that exists, and concrete journals can be evaluated.
-/

namespace Ubiq.Settlement

open Foundation

/-- The name of an enumeration value in JSON, as `std.json` takes it from Zig. -/
def State.tagName : State → Bytes
  | .published => ascii "published"
  | .leased => ascii "leased"
  | .received => ascii "received"
  | .settledOk => ascii "settled_ok"
  | .settledError => ascii "settled_error"
  | .expired => ascii "expired"

/-- The enumeration value of a name; the text is one the printer wrote. -/
def State.ofTagName (name : Bytes) : State :=
  if name = ascii "leased" then .leased
  else if name = ascii "received" then .received
  else if name = ascii "settled_ok" then .settledOk
  else if name = ascii "settled_error" then .settledError
  else if name = ascii "expired" then .expired
  else .published

theorem State.ofTagName_tagName (state : State) : State.ofTagName state.tagName = state := by
  cases state <;> decide

namespace RecordJson

/-- `"name":` in front of a value. -/
def key (name : Bytes) : Bytes :=
  34 :: (name ++ [34, 58])

/-- An `u64` field and the comma behind it. -/
def u64Field (name : Bytes) : Format UInt64 :=
  .tagged (key name) (.number (2 ^ 64) UInt64.toNat UInt64.ofNat UInt64.toNat_lt
    fun _ => UInt64.ofNat_toNat)

/-- An `u32` field and the comma behind it. -/
def u32Field (name : Bytes) : Format UInt32 :=
  .tagged (key name) (.number (2 ^ 32) UInt32.toNat UInt32.ofNat UInt32.toNat_lt
    fun _ => UInt32.ofNat_toNat)

/-- A `[]const u8` field and the comma behind it. -/
def textField (name : Bytes) : Format Bytes :=
  .tagged (key name) (.closed .quoted [44])

/-- A `?[]const u8` field and the comma behind it. -/
def optionalField (name : Bytes) : Format (Option Bytes) :=
  .tagged (key name) (.closed .nullable [44])

/-- A `State` field and the comma behind it. -/
def stateField (name : Bytes) : Format State :=
  .tagged (key name) (.closed (.comap .quoted State.tagName State.ofTagName
    State.ofTagName_tagName) [44])

/-- The last field of an object: a text and the closing brace. -/
def lastField (name : Bytes) : Format Bytes :=
  .tagged (key name) (.closed .quoted [125])

/-- The fields of a record from left to right. -/
def fields : Format (UInt64 × Bytes × Bytes × Bytes × Bytes × Bytes × State × Option Bytes ×
    UInt64 × UInt32 × UInt64 × UInt64 × UInt64 × Bytes × Bytes) :=
  .seq (u64Field (ascii "sequence")) <|
  .seq (textField (ascii "event_id")) <|
  .seq (textField (ascii "canonical_event")) <|
  .seq (textField (ascii "idempotency_key")) <|
  .seq (textField (ascii "payload_reference")) <|
  .seq (textField (ascii "payload")) <|
  .seq (stateField (ascii "delivery_state")) <|
  .seq (optionalField (ascii "lease_owner")) <|
  .seq (u64Field (ascii "lease_deadline_ms")) <|
  .seq (u32Field (ascii "attempt")) <|
  .seq (u64Field (ascii "fencing_generation")) <|
  .seq (u64Field (ascii "created_at_ms")) <|
  .seq (u64Field (ascii "updated_at_ms")) <|
  .seq (textField (ascii "correlation_id")) <|
  lastField (ascii "causation_id")

/-- The object of a record. -/
def format : Format Record :=
  .comap (.tagged [123] fields)
    (fun r => (r.sequence, r.eventId, r.canonicalEvent, r.idempotencyKey, r.payloadReference,
      r.payload, r.deliveryState, r.leaseOwner, r.leaseDeadlineMs, r.attempt,
      r.fencingGeneration, r.createdAtMs, r.updatedAtMs, r.correlationId, r.causationId))
    (fun (sequence, eventId, canonicalEvent, idempotencyKey, payloadReference, payload,
        deliveryState, leaseOwner, leaseDeadlineMs, attempt, fencingGeneration, createdAtMs,
        updatedAtMs, correlationId, causationId) =>
      { sequence, eventId, canonicalEvent, idempotencyKey, payloadReference, payload,
        deliveryState, leaseOwner, leaseDeadlineMs, attempt, fencingGeneration, createdAtMs,
        updatedAtMs, correlationId, causationId })
    (fun _ => rfl)

section OneLine

variable {name : Bytes} (hname : newline ∉ key name)
include hname

theorem avoids_u64Field : (u64Field name).Avoids newline :=
  .tagged hname Format.avoids_newline_number

theorem avoids_u32Field : (u32Field name).Avoids newline :=
  .tagged hname Format.avoids_newline_number

theorem avoids_textField : (textField name).Avoids newline :=
  .tagged hname (.closed (by decide) Format.avoids_newline_quoted)

theorem avoids_optionalField : (optionalField name).Avoids newline :=
  .tagged hname (.closed (by decide) Format.avoids_newline_nullable)

theorem avoids_stateField : (stateField name).Avoids newline :=
  .tagged hname (.closed (by decide) (.comap Format.avoids_newline_quoted))

theorem avoids_lastField : (lastField name).Avoids newline :=
  .tagged hname (.closed (by decide) Format.avoids_newline_quoted)

end OneLine

/-- A record is written on one line. -/
theorem avoids_newline_format : format.Avoids newline :=
  .comap <| .tagged (by decide) <|
    .seq (avoids_u64Field (by decide)) <|
    .seq (avoids_textField (by decide)) <|
    .seq (avoids_textField (by decide)) <|
    .seq (avoids_textField (by decide)) <|
    .seq (avoids_textField (by decide)) <|
    .seq (avoids_textField (by decide)) <|
    .seq (avoids_stateField (by decide)) <|
    .seq (avoids_optionalField (by decide)) <|
    .seq (avoids_u64Field (by decide)) <|
    .seq (avoids_u32Field (by decide)) <|
    .seq (avoids_u64Field (by decide)) <|
    .seq (avoids_u64Field (by decide)) <|
    .seq (avoids_u64Field (by decide)) <|
    .seq (avoids_textField (by decide)) <|
    avoids_lastField (by decide)

end RecordJson

/-- The codec of the settlement journal. -/
def recordJson : RecordCodec where
  stringify := RecordJson.format.print
  parse text :=
    match RecordJson.format.read text with
    | some (record, []) => some record
    | _ => none
  parse_stringify record := by
    have h := RecordJson.format.read_print record []
    rw [List.append_nil] at h
    simp only [h]
  newline_not_mem_stringify := RecordJson.avoids_newline_format
  stringify_ne_nil _ := List.cons_ne_nil _ _

/-- A store with the limits of the source. -/
def jsonStore : Store := { codec := recordJson }

/-- A snapshot with the defaults of the source; `persist` sets its sequence number. -/
def snapshot (eventId idempotencyKey : String) (deliveryState : State)
    (leaseOwner : Option String) : Record where
  sequence := 0
  eventId := ascii eventId
  canonicalEvent := ascii "order.paid"
  idempotencyKey := ascii idempotencyKey
  deliveryState := deliveryState
  leaseOwner := leaseOwner.map ascii

example : recordJson.stringify
    { sequence := 1, eventId := ascii "e", canonicalEvent := ascii "c",
      idempotencyKey := ascii "k", deliveryState := .published } =
    [123] ++ ascii "\"sequence\":1,\"event_id\":\"e\",\"canonical_event\":\"c\"," ++
      ascii "\"idempotency_key\":\"k\",\"payload_reference\":\"\",\"payload\":\"\"," ++
      ascii "\"delivery_state\":\"published\",\"lease_owner\":null,\"lease_deadline_ms\":0," ++
      ascii "\"attempt\":0,\"fencing_generation\":0,\"created_at_ms\":0,\"updated_at_ms\":0," ++
      ascii "\"correlation_id\":\"\",\"causation_id\":\"\"" ++ [125] := by
  decide +kernel

end Ubiq.Settlement
