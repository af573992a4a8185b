import Ubiq.Control.Store

/-!
# Messages of the broker transports

What the subscriptions of `transports_broker.go` do with the bytes of a message before
they decide about an acknowledgement: decode the envelope, validate it, and compare its
event with the subscribed one.
-/

namespace Ubiq.Broker

open Foundation
open Message
open Control (Json)

/-- The errors of `encodeEnvelope` and `decodeEnvelope`. -/
inductive CodecError
  | json
  | model (err : ModelError)
deriving DecidableEq, Repr

def encodeEnvelope (json : Json) (envelope : Envelope) : Except CodecError Bytes :=
  match envelope.validate json.valid with
  | .error err => .error (.model err)
  | .ok _ =>
      match json.marshal envelope with
      | none => .error .json
      | some raw => .ok raw

theorem encodeEnvelope_eq_ok_iff {json : Json} {envelope : Envelope} {raw : Bytes} :
    encodeEnvelope json envelope = .ok raw ↔
      envelope.validate json.valid = .ok () ∧ json.marshal envelope = some raw := by
  unfold encodeEnvelope
  cases envelope.validate json.valid with
  | error err => simp
  | ok _ => cases json.marshal envelope <;> simp

theorem encodeEnvelope_of_marshal_none {json : Json} {envelope : Envelope}
    (hvalid : envelope.validate json.valid = .ok ()) (hmarshal : json.marshal envelope = none) :
    encodeEnvelope json envelope = .error .json := by
  simp only [encodeEnvelope, hvalid, hmarshal]

def decodeEnvelope (json : Json) (raw : Bytes) : Except CodecError Envelope :=
  match json.unmarshal raw with
  | none => .error .json
  | some envelope =>
      match envelope.validate json.valid with
      | .error err => .error (.model err)
      | .ok _ => .ok envelope

/-- `"*"`, the subscription of all events. -/
def everyEvent : Bytes := ascii "*"

/-- A subscription of `event` takes an envelope with the event `name`. -/
def subscribes (event name : Bytes) : Bool :=
  event = everyEvent || name = event

/-- What a subscription makes of a message. -/
inductive Reading
  | undecodable
  | filtered (envelope : Envelope)
  | matching (envelope : Envelope)
deriving DecidableEq, Repr

/-- The message as the subscription of `event` reads it. -/
def reading (json : Json) (event raw : Bytes) : Reading :=
  match decodeEnvelope json raw with
  | .error _ => .undecodable
  | .ok envelope => if subscribes event envelope.event then .matching envelope else .filtered envelope

/-! ## Two events -/

/-- The event of an operation on an order. -/
def order (operation : String) : Envelope where
  id := ascii operation
  event := ascii "Order." ++ ascii operation ++ ascii ".request"
  correlationId := ascii "c"
  idempotencyKey := ascii operation
  schemaId := ascii "s"
  payload := ascii "1"
  guarantee := .processed
  createdAtMs := 0

/-- Its JSON. -/
def orderJson (operation : String) : Bytes :=
  ascii "\x7b\"id\":\"" ++ ascii operation ++
  ascii "\",\"event\":\"Order." ++ ascii operation ++
  ascii ".request\",\"correlation_id\":\"c\",\"causation_id\":\"\",\"idempotency_key\":\"" ++
  ascii operation ++
  ascii "\",\"schema_id\":\"s\",\"payload\":1,\"guarantee\":\"processed\",\"created_at_ms\":0\x7d"

/-- `encoding/json` on two such events. -/
def orderCodec : Json where
  valid text := text = ascii "1"
  marshal envelope :=
    if envelope = order "create" then some (orderJson "create")
    else if envelope = order "cancel" then some (orderJson "cancel")
    else none
  unmarshal text :=
    if text = orderJson "create" then some (order "create")
    else if text = orderJson "cancel" then some (order "cancel")
    else none

end Ubiq.Broker
