import Ubiq.Foundation.Lines

/-!
# Envelopes and control frames

The data of `model.go` and of the message security header, and the two
`Validate` methods. Go strings and byte slices are byte lists. A named string
type whose constants the code distinguishes is an enumeration with one more
constructor for any other text.
-/

namespace Ubiq.Message

open Foundation

/-- `EventState`, the last segment of a canonical event. -/
inductive EventState
  | request
  | ok
  | error
deriving DecidableEq, Repr

inductive DeliveryGuarantee
  | bestEffort
  | received
  | processed
  | other (text : Bytes)
deriving DecidableEq, Repr

inductive DeliveryState
  | published
  | leased
  | received
  | settledOk
  | settledError
  | expired
deriving DecidableEq, Repr

/-- `settled_ok` or `settled_error`. -/
def DeliveryState.settled (state : DeliveryState) : Bool :=
  state = .settledOk ∨ state = .settledError

inductive ControlKind
  | received
  | settledOk
  | settledError
  | leaseExpired
  | other (text : Bytes)
deriving DecidableEq, Repr

structure HybridSignature where
  ed25519 : Bytes
  mldsa44 : Bytes
deriving DecidableEq, Repr

structure ProofOfPossession where
  holder : Bytes
  createdAtMs : Int
  nonce : Bytes
  method : Bytes
  target : Bytes
  envelopeHash : Bytes
  signature : HybridSignature
deriving DecidableEq, Repr

structure MessageSecurity where
  keyId : Bytes
  proof : ProofOfPossession
deriving DecidableEq, Repr

structure Envelope where
  id : Bytes
  event : Bytes
  correlationId : Bytes
  causationId : Bytes := []
  idempotencyKey : Bytes
  schemaId : Bytes
  payload : Bytes
  guarantee : DeliveryGuarantee
  createdAtMs : Int
  security : Option MessageSecurity := none
deriving DecidableEq, Repr

/-- The errors of `model.go`. -/
inductive ModelError
  | missingIdentity
  | invalidCanonicalEvent (event : Bytes)
  | invalidEventState (state : Bytes)
  | invalidGuarantee (guarantee : DeliveryGuarantee)
  | invalidPayload
  | invalidControlKind (kind : ControlKind)
  | missingLease
deriving DecidableEq, Repr

/-- The text of a guarantee. -/
def DeliveryGuarantee.text : DeliveryGuarantee → Bytes
  | .bestEffort => ascii "best_effort"
  | .received => ascii "received"
  | .processed => ascii "processed"
  | .other text => text

/-- The text of a control kind. -/
def ControlKind.text : ControlKind → Bytes
  | .received => ascii "RECEIVED"
  | .settledOk => ascii "SETTLED_OK"
  | .settledError => ascii "SETTLED_ERROR"
  | .leaseExpired => ascii "LEASE_EXPIRED"
  | .other text => text

/-- The messages; `quote` is the verb `%q` of `fmt`. -/
def ModelError.message (quote : Bytes → Bytes) : ModelError → Bytes
  | .missingIdentity => ascii "id, idempotency_key, schema_id and correlation_id are required"
  | .invalidCanonicalEvent event => ascii "invalid canonical event " ++ quote event
  | .invalidEventState state => ascii "invalid event state " ++ quote state
  | .invalidGuarantee guarantee => ascii "invalid guarantee " ++ quote guarantee.text
  | .invalidPayload => ascii "payload must be valid JSON"
  | .invalidControlKind kind => ascii "invalid control kind " ++ quote kind.text
  | .missingLease => ascii "event_id, worker_id and fencing_token are required"

/-! ## Canonical events -/

/-- `[A-Za-z]`. -/
def letter (c : UInt8) : Bool :=
  (65 ≤ c ∧ c ≤ 90) ∨ (97 ≤ c ∧ c ≤ 122)

/-- `[A-Za-z0-9_-]`. -/
def segmentByte (c : UInt8) : Bool :=
  letter c ∨ (48 ≤ c ∧ c ≤ 57) ∨ c = 95 ∨ c = 45

/-- `[A-Za-z][A-Za-z0-9_-]*`. -/
def segment : Bytes → Bool
  | [] => false
  | c :: rest => letter c && rest.all segmentByte

/-- `strings.Split(text, ".")`. -/
def splitDots (text : Bytes) : List Bytes :=
  Lines.completeLines 46 text ++ [Lines.tail 46 text]

/-- `canonicalEventPattern`: three segments or more, separated by dots. -/
def canonicalEventPattern (text : Bytes) : Bool :=
  3 ≤ (splitDots text).length ∧ (splitDots text).all segment

def Envelope.state (envelope : Envelope) : Except ModelError EventState :=
  if !canonicalEventPattern envelope.event then
    .error (.invalidCanonicalEvent envelope.event)
  else
    let state := Lines.tail 46 envelope.event
    if state = ascii "request" then .ok .request
    else if state = ascii "ok" then .ok .ok
    else if state = ascii "error" then .ok .error
    else .error (.invalidEventState state)

/-- `Envelope.Validate`; `jsonValid` is `json.Valid`. -/
def Envelope.validate (jsonValid : Bytes → Bool) (envelope : Envelope) : Except ModelError Unit :=
  if envelope.id = [] ∨ envelope.idempotencyKey = [] ∨ envelope.schemaId = [] ∨
      envelope.correlationId = [] then
    .error .missingIdentity
  else
    match envelope.state with
    | .error err => .error err
    | .ok _ =>
        match envelope.guarantee with
        | .other text => .error (.invalidGuarantee (.other text))
        | .bestEffort | .received | .processed =>
            if envelope.payload.length = 0 ∨ !jsonValid envelope.payload then
              .error .invalidPayload
            else
              .ok ()

/-- The checks of `Validate`. -/
theorem Envelope.validate_eq_ok_iff {jsonValid : Bytes → Bool} {envelope : Envelope} :
    envelope.validate jsonValid = .ok () ↔
      (envelope.id ≠ [] ∧ envelope.idempotencyKey ≠ [] ∧ envelope.schemaId ≠ [] ∧
        envelope.correlationId ≠ []) ∧
      (∃ state, envelope.state = .ok state) ∧ (∀ text, envelope.guarantee ≠ .other text) ∧
      envelope.payload ≠ [] ∧ jsonValid envelope.payload = true := by
  unfold Envelope.validate
  split
  · rename_i hempty
    constructor
    · intro h
      cases h
    · rintro ⟨⟨hid, hkey, hschema, hcorrelation⟩, -⟩
      simp [hid, hkey, hschema, hcorrelation] at hempty
  · rename_i hfull
    simp only [not_or] at hfull
    cases hstate : envelope.state with
    | error err => simp
    | ok state =>
        cases hguarantee : envelope.guarantee <;> simp [hfull]

/-! ## Control frames -/

structure Lease where
  eventId : Bytes
  workerId : Bytes
  untilMs : Int
  attempt : Nat
  fencingToken : Nat
deriving DecidableEq, Repr

structure ControlFrame where
  kind : ControlKind
  eventId : Bytes
  workerId : Bytes
  fencingToken : UInt64
  atMs : Int
  evidence : Bytes := []
deriving DecidableEq, Repr

def ControlFrame.validate (frame : ControlFrame) : Except ModelError Unit :=
  match frame.kind with
  | .other text => .error (.invalidControlKind (.other text))
  | .received | .settledOk | .settledError | .leaseExpired =>
      if frame.eventId = [] ∨ frame.workerId = [] ∨ frame.fencingToken = 0 then
        .error .missingLease
      else
        .ok ()

structure ClaimedEvent where
  envelope : Envelope
  lease : Lease
  state : DeliveryState
deriving DecidableEq, Repr

end Ubiq.Message
