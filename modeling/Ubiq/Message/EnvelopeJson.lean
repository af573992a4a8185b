import Ubiq.Foundation.GoStruct
import Ubiq.Message.Model

/-!
# Envelopes as JSON texts

`json.Marshal` and `json.Unmarshal` at the type `Envelope`, with the structs it contains. The
payload is a `json.RawMessage`: it is compacted when it is written and kept as it stands when it is
read. What comes back from a written envelope is the envelope with its strings repaired and its
payload compacted (`unmarshal_render`); it is written like the envelope itself (`value_repaired`).
The limit on nesting is that of the whole document, when it is written and when it is read.
-/

namespace Ubiq.Message

open Foundation
open Foundation.GoJson
open Json (Chunk Value Member)

/-! ## The structs -/

/-- The fields of `HybridSignature`. -/
inductive SignatureField
  | ed25519
  | mldsa44
deriving DecidableEq, Repr

namespace SignatureField

def all : List SignatureField :=
  [.ed25519, .mldsa44]

/-- The tag `json`. -/
def name : SignatureField → Bytes
  | .ed25519 => ascii "ed25519"
  | .mldsa44 => ascii "mldsa44"

theorem found : ∀ field ∈ all, findField all name (name field) = some field := by
  decide +kernel

theorem plain : ∀ field ∈ all, ∀ c ∈ name field,
    c ≤ 0x7F ∧ (Chunk.plain c).wellFormed = true := by
  decide +kernel

def struct : Struct SignatureField := ⟨all, name, found, plain⟩

end SignatureField

/-- The fields of `ProofOfPossession`. -/
inductive ProofField
  | holder
  | createdAtMs
  | nonce
  | method
  | target
  | envelopeHash
  | signature
deriving DecidableEq, Repr

namespace ProofField

def all : List ProofField :=
  [.holder, .createdAtMs, .nonce, .method, .target, .envelopeHash, .signature]

/-- The tag `json`. -/
def name : ProofField → Bytes
  | .holder => ascii "holder"
  | .createdAtMs => ascii "created_at_ms"
  | .nonce => ascii "nonce"
  | .method => ascii "method"
  | .target => ascii "target"
  | .envelopeHash => ascii "envelope_hash"
  | .signature => ascii "signature"

theorem found : ∀ field ∈ all, findField all name (name field) = some field := by
  decide +kernel

theorem plain : ∀ field ∈ all, ∀ c ∈ name field,
    c ≤ 0x7F ∧ (Chunk.plain c).wellFormed = true := by
  decide +kernel

def struct : Struct ProofField := ⟨all, name, found, plain⟩

end ProofField

/-- The fields of `MessageSecurity`. -/
inductive SecurityField
  | keyId
  | proof
deriving DecidableEq, Repr

namespace SecurityField

def all : List SecurityField :=
  [.keyId, .proof]

/-- The tag `json`. -/
def name : SecurityField → Bytes
  | .keyId => ascii "key_id"
  | .proof => ascii "proof"

theorem found : ∀ field ∈ all, findField all name (name field) = some field := by
  decide +kernel

theorem plain : ∀ field ∈ all, ∀ c ∈ name field,
    c ≤ 0x7F ∧ (Chunk.plain c).wellFormed = true := by
  decide +kernel

def struct : Struct SecurityField := ⟨all, name, found, plain⟩

end SecurityField

/-- The fields of `Envelope`. -/
inductive EnvelopeField
  | id
  | event
  | correlationId
  | causationId
  | idempotencyKey
  | schemaId
  | payload
  | guarantee
  | createdAtMs
  | security
deriving DecidableEq, Repr

namespace EnvelopeField

def all : List EnvelopeField :=
  [.id, .event, .correlationId, .causationId, .idempotencyKey, .schemaId, .payload, .guarantee,
    .createdAtMs, .security]

/-- The tag `json`. -/
def name : EnvelopeField → Bytes
  | .id => ascii "id"
  | .event => ascii "event"
  | .correlationId => ascii "correlation_id"
  | .causationId => ascii "causation_id"
  | .idempotencyKey => ascii "idempotency_key"
  | .schemaId => ascii "schema_id"
  | .payload => ascii "payload"
  | .guarantee => ascii "guarantee"
  | .createdAtMs => ascii "created_at_ms"
  | .security => ascii "security"

theorem found : ∀ field ∈ all, findField all name (name field) = some field := by
  decide +kernel

theorem plain : ∀ field ∈ all, ∀ c ∈ name field,
    c ≤ 0x7F ∧ (Chunk.plain c).wellFormed = true := by
  decide +kernel

def struct : Struct EnvelopeField := ⟨all, name, found, plain⟩

end EnvelopeField

/-! ## Writing -/

def HybridSignature.fields (signature : HybridSignature) :
    SignatureField → Option (Value (List Chunk))
  | .ed25519 => some (bytesValue signature.ed25519)
  | .mldsa44 => some (bytesValue signature.mldsa44)

def HybridSignature.value (signature : HybridSignature) : Value (List Chunk) :=
  .object (SignatureField.struct.members signature.fields)

def ProofOfPossession.fields (proof : ProofOfPossession) : ProofField → Option (Value (List Chunk))
  | .holder => some (stringValue proof.holder)
  | .createdAtMs => some (intValue proof.createdAtMs)
  | .nonce => some (stringValue proof.nonce)
  | .method => some (stringValue proof.method)
  | .target => some (stringValue proof.target)
  | .envelopeHash => some (stringValue proof.envelopeHash)
  | .signature => some proof.signature.value

def ProofOfPossession.value (proof : ProofOfPossession) : Value (List Chunk) :=
  .object (ProofField.struct.members proof.fields)

def MessageSecurity.fields (security : MessageSecurity) : SecurityField → Option (Value (List Chunk))
  | .keyId => some (stringValue security.keyId)
  | .proof => some security.proof.value

def MessageSecurity.value (security : MessageSecurity) : Value (List Chunk) :=
  .object (SecurityField.struct.members security.fields)

/-- A raw message: nil is `null`, any other one is compacted. -/
def payloadValue (payload : Bytes) : Option (Value (List Chunk)) :=
  if payload = [] then some .null else (scan payload).map compacted

/-- The fields of an envelope whose payload is written as `payload`; a nil `security` is omitted. -/
def Envelope.fields (envelope : Envelope) (payload : Value (List Chunk)) :
    EnvelopeField → Option (Value (List Chunk))
  | .id => some (stringValue envelope.id)
  | .event => some (stringValue envelope.event)
  | .correlationId => some (stringValue envelope.correlationId)
  | .causationId => some (stringValue envelope.causationId)
  | .idempotencyKey => some (stringValue envelope.idempotencyKey)
  | .schemaId => some (stringValue envelope.schemaId)
  | .payload => some payload
  | .guarantee => some (stringValue envelope.guarantee.text)
  | .createdAtMs => some (intValue envelope.createdAtMs)
  | .security => envelope.security.map MessageSecurity.value

def Envelope.value (envelope : Envelope) (payload : Value (List Chunk)) : Value (List Chunk) :=
  .object (EnvelopeField.struct.members (envelope.fields payload))

/-- `json.Marshal` of an envelope: the payload is scanned, and the document around it is held to
the limit on nesting. -/
def Envelope.marshal (envelope : Envelope) : Option Bytes :=
  match payloadValue envelope.payload with
  | none => none
  | some payload =>
      if (envelope.value payload).depth ≤ maxNestingDepth then
        some (Json.render (envelope.value payload))
      else none

/-! ## Reading -/

/-- A guarantee is any text. -/
def DeliveryGuarantee.ofText (text : Bytes) : DeliveryGuarantee :=
  if text = ascii "best_effort" then .bestEffort
  else if text = ascii "received" then .received
  else if text = ascii "processed" then .processed
  else .other text

def HybridSignature.store (old : HybridSignature) (field : SignatureField) (member : Member) :
    Option HybridSignature :=
  match field with
  | .ed25519 => (readBytes member.value).map fun bytes => { old with ed25519 := bytes }
  | .mldsa44 => (readBytes member.value).map fun bytes => { old with mldsa44 := bytes }

def ProofOfPossession.store (old : ProofOfPossession) (field : ProofField) (member : Member) :
    Option ProofOfPossession :=
  match field with
  | .holder => (readString old.holder member.value).map fun text => { old with holder := text }
  | .createdAtMs =>
      (readInt64 old.createdAtMs member.value).map fun time => { old with createdAtMs := time }
  | .nonce => (readString old.nonce member.value).map fun text => { old with nonce := text }
  | .method => (readString old.method member.value).map fun text => { old with method := text }
  | .target => (readString old.target member.value).map fun text => { old with target := text }
  | .envelopeHash =>
      (readString old.envelopeHash member.value).map fun text => { old with envelopeHash := text }
  | .signature =>
      (SignatureField.struct.readStruct HybridSignature.store old.signature member).map
        fun signature => { old with signature := signature }

def MessageSecurity.store (old : MessageSecurity) (field : SecurityField) (member : Member) :
    Option MessageSecurity :=
  match field with
  | .keyId => (readString old.keyId member.value).map fun text => { old with keyId := text }
  | .proof =>
      (ProofField.struct.readStruct ProofOfPossession.store old.proof member).map
        fun proof => { old with proof := proof }

def MessageSecurity.zero : MessageSecurity where
  keyId := []
  proof := ⟨[], 0, [], [], [], [], ⟨[], []⟩⟩

/-- `Envelope{}`. -/
def Envelope.zero : Envelope where
  id := []
  event := []
  correlationId := []
  idempotencyKey := []
  schemaId := []
  payload := []
  guarantee := .other []
  createdAtMs := 0

def Envelope.store (old : Envelope) (field : EnvelopeField) (member : Member) : Option Envelope :=
  match field with
  | .id => (readString old.id member.value).map fun text => { old with id := text }
  | .event => (readString old.event member.value).map fun text => { old with event := text }
  | .correlationId =>
      (readString old.correlationId member.value).map fun text => { old with correlationId := text }
  | .causationId =>
      (readString old.causationId member.value).map fun text => { old with causationId := text }
  | .idempotencyKey =>
      (readString old.idempotencyKey member.value).map
        fun text => { old with idempotencyKey := text }
  | .schemaId =>
      (readString old.schemaId member.value).map fun text => { old with schemaId := text }
  -- a raw message keeps the bytes of the value, also those of `null`
  | .payload => some { old with payload := member.source }
  | .guarantee =>
      (readString old.guarantee.text member.value).map
        fun text => { old with guarantee := .ofText text }
  | .createdAtMs =>
      (readInt64 old.createdAtMs member.value).map fun time => { old with createdAtMs := time }
  | .security =>
      (SecurityField.struct.readPointer MessageSecurity.store .zero old.security member).map
        fun security => { old with security := security }

/-- `json.Unmarshal` into a new envelope; the whole text is scanned first. -/
def unmarshalEnvelope (raw : Bytes) : Option Envelope :=
  match scan raw with
  | some .null => some .zero
  | some (.object _) => EnvelopeField.struct.read Envelope.store .zero raw
  | _ => none

/-! ## What comes back -/

def ProofOfPossession.repaired (proof : ProofOfPossession) : ProofOfPossession :=
  { proof with
    holder := Utf8.repair proof.holder
    nonce := Utf8.repair proof.nonce
    method := Utf8.repair proof.method
    target := Utf8.repair proof.target
    envelopeHash := Utf8.repair proof.envelopeHash }

def MessageSecurity.repaired (security : MessageSecurity) : MessageSecurity :=
  { keyId := Utf8.repair security.keyId, proof := security.proof.repaired }

/-- The envelope with valid UTF-8 in every string. -/
def Envelope.repaired (envelope : Envelope) : Envelope :=
  { envelope with
    id := Utf8.repair envelope.id
    event := Utf8.repair envelope.event
    correlationId := Utf8.repair envelope.correlationId
    causationId := Utf8.repair envelope.causationId
    idempotencyKey := Utf8.repair envelope.idempotencyKey
    schemaId := Utf8.repair envelope.schemaId
    guarantee := .ofText (Utf8.repair envelope.guarantee.text)
    security := envelope.security.map MessageSecurity.repaired }

/-- The times of the envelope are in the range of their type. -/
def Envelope.InRange (envelope : Envelope) : Prop :=
  IsInt64 envelope.createdAtMs ∧
    ∀ security ∈ envelope.security, IsInt64 security.proof.createdAtMs

instance Envelope.decidableInRange (envelope : Envelope) : Decidable envelope.InRange :=
  inferInstanceAs (Decidable (_ ∧ _))

/-! ### Writing what came back -/

@[simp] theorem stringValue_repair (text : Bytes) :
    stringValue (Utf8.repair text) = stringValue text :=
  congrArg Value.string (quote_repair text)

@[simp] theorem DeliveryGuarantee.text_ofText (text : Bytes) :
    (DeliveryGuarantee.ofText text).text = text := by
  unfold DeliveryGuarantee.ofText
  split_ifs with hbest hreceived hprocessed
  · exact hbest.symm
  · exact hreceived.symm
  · exact hprocessed.symm
  · rfl

theorem MessageSecurity.value_repaired (security : MessageSecurity) :
    security.repaired.value = security.value := by
  have hproof : security.proof.repaired.fields = security.proof.fields := by
    funext field
    cases field <;> simp [ProofOfPossession.repaired, ProofOfPossession.fields]
  have hfields : security.repaired.fields = security.fields := by
    funext field
    cases field with
    | keyId => simp [MessageSecurity.repaired, MessageSecurity.fields]
    | proof => simp [MessageSecurity.repaired, MessageSecurity.fields, ProofOfPossession.value, hproof]
  rw [MessageSecurity.value, MessageSecurity.value, hfields]

/-- **A repaired envelope is written like the envelope.** -/
theorem Envelope.value_repaired (envelope : Envelope) (payload : Value (List Chunk)) :
    envelope.repaired.value payload = envelope.value payload := by
  have hfields : envelope.repaired.fields payload = envelope.fields payload := by
    funext field
    cases field with
    | security =>
        simp [Envelope.repaired, Envelope.fields, Function.comp_def,
          MessageSecurity.value_repaired]
    | _ => simp [Envelope.repaired, Envelope.fields]
  rw [Envelope.value, Envelope.value, hfields]

section Written

theorem HybridSignature.wellFormed_fields (signature : HybridSignature) :
    ∀ field ∈ SignatureField.struct.all, ∀ result ∈ signature.fields field,
      Json.WellFormed result := by
  intro field _ result hresult
  cases field <;> cases hresult <;> exact wellFormed_bytesValue _

theorem ProofOfPossession.wellFormed_fields (proof : ProofOfPossession) :
    ∀ field ∈ ProofField.struct.all, ∀ result ∈ proof.fields field, Json.WellFormed result := by
  intro field _ result hresult
  cases field <;> cases hresult
  case createdAtMs => exact wellFormed_intValue _
  case signature =>
    exact SignatureField.struct.wellFormed_members proof.signature.wellFormed_fields
  all_goals exact wellFormed_stringValue _

theorem MessageSecurity.wellFormed_fields (security : MessageSecurity) :
    ∀ field ∈ SecurityField.struct.all, ∀ result ∈ security.fields field,
      Json.WellFormed result := by
  intro field _ result hresult
  cases field <;> cases hresult
  case keyId => exact wellFormed_stringValue _
  case proof => exact ProofField.struct.wellFormed_members security.proof.wellFormed_fields

variable {payload : Value (List Chunk)} {envelope : Envelope}

theorem Envelope.wellFormed_fields (envelope : Envelope) (h : Json.WellFormed payload) :
    ∀ field ∈ EnvelopeField.struct.all, ∀ result ∈ envelope.fields payload field,
      Json.WellFormed result := by
  intro field _ result hresult
  cases field with
  | payload => cases hresult; exact h
  | createdAtMs => cases hresult; exact wellFormed_intValue _
  | security =>
      obtain ⟨security, -, rfl⟩ := Option.map_eq_some_iff.mp hresult
      exact SecurityField.struct.wellFormed_members security.wellFormed_fields
  | _ => cases hresult; exact wellFormed_stringValue _

theorem HybridSignature.read_value (old signature : HybridSignature) :
    SignatureField.struct.read HybridSignature.store old (Json.render signature.value) =
      some signature := by
  rw [HybridSignature.value, Struct.read_render _ signature.wellFormed_fields]
  simp [SignatureField.struct, SignatureField.all, Struct.storeField, HybridSignature.fields,
    HybridSignature.store, readBytes_bytesValue]

theorem ProofOfPossession.read_value (old : ProofOfPossession) {proof : ProofOfPossession}
    (h : IsInt64 proof.createdAtMs) :
    ProofField.struct.read ProofOfPossession.store old (Json.render proof.value) =
      some proof.repaired := by
  rw [ProofOfPossession.value, Struct.read_render _ proof.wellFormed_fields]
  have hsignature := HybridSignature.read_value old.signature proof.signature
  simp only [HybridSignature.value] at hsignature
  simp [ProofField.struct, ProofField.all, Struct.storeField, ProofOfPossession.fields,
    ProofOfPossession.store, readString_stringValue, readInt64_intValue _ h, Struct.readStruct,
    HybridSignature.value, hsignature, ProofOfPossession.repaired]

theorem MessageSecurity.read_value (old : MessageSecurity) {security : MessageSecurity}
    (h : IsInt64 security.proof.createdAtMs) :
    SecurityField.struct.read MessageSecurity.store old (Json.render security.value) =
      some security.repaired := by
  rw [MessageSecurity.value, Struct.read_render _ security.wellFormed_fields]
  have hproof := ProofOfPossession.read_value old.proof h
  simp only [ProofOfPossession.value] at hproof
  simp [SecurityField.struct, SecurityField.all, Struct.storeField, MessageSecurity.fields,
    MessageSecurity.store, readString_stringValue, Struct.readStruct, ProofOfPossession.value,
    hproof, MessageSecurity.repaired]

theorem Envelope.read_value (h : envelope.InRange) (hpayload : Json.WellFormed payload) :
    EnvelopeField.struct.read Envelope.store .zero (Json.render (envelope.value payload)) =
      some { envelope.repaired with payload := Json.render payload } := by
  rw [Envelope.value, Struct.read_render _ (envelope.wellFormed_fields hpayload)]
  obtain ⟨htime, hsecurity⟩ := h
  cases hnil : envelope.security with
  | none =>
      simp [EnvelopeField.struct, EnvelopeField.all, Struct.storeField, Envelope.fields,
        Envelope.store, readString_stringValue, readInt64_intValue _ htime, hnil,
        Envelope.repaired, Envelope.zero]
  | some security =>
      have hread := MessageSecurity.read_value .zero (hsecurity security hnil)
      simp only [MessageSecurity.value] at hread
      simp [EnvelopeField.struct, EnvelopeField.all, Struct.storeField, Envelope.fields,
        Envelope.store, readString_stringValue, readInt64_intValue _ htime, hnil,
        Struct.readPointer, MessageSecurity.value, hread, Envelope.repaired, Envelope.zero]

/-! ## Nesting -/

theorem depth_stringValue (text : Bytes) : (stringValue text).depth = 0 := rfl

theorem depth_intValue (value : Int) : (intValue value).depth = 0 := rfl

theorem depth_bytesValue (bytes : Bytes) : (bytesValue bytes).depth = 0 := by
  unfold bytesValue
  split <;> rfl

/-- The security header has three levels. -/
theorem MessageSecurity.depth_value (security : MessageSecurity) : security.value.depth = 3 := by
  have hsignature : security.proof.signature.value.depth = 1 := by
    simp [HybridSignature.value, Value.depth_object, Struct.members, SignatureField.struct,
      SignatureField.all, HybridSignature.fields, Value.depths, depth_bytesValue]
  have hproof : security.proof.value.depth = 2 := by
    simp [ProofOfPossession.value, Value.depth_object, Struct.members, ProofField.struct,
      ProofField.all, ProofOfPossession.fields, Value.depths, hsignature, depth_stringValue,
      depth_intValue]
  simp [MessageSecurity.value, Value.depth_object, Struct.members, SecurityField.struct,
    SecurityField.all, MessageSecurity.fields, Value.depths, hproof, depth_stringValue]

theorem Envelope.depth_value (envelope : Envelope) (payload : Value (List Chunk)) :
    (envelope.value payload).depth =
      max payload.depth (if envelope.security.isSome then 3 else 0) + 1 := by
  cases hsecurity : envelope.security with
  | none =>
      simp [Envelope.value, Value.depth_object, Struct.members, EnvelopeField.struct,
        EnvelopeField.all, Envelope.fields, Value.depths, depth_stringValue, depth_intValue,
        hsecurity]
  | some security =>
      simp [Envelope.value, Value.depth_object, Struct.members, EnvelopeField.struct,
        EnvelopeField.all, Envelope.fields, Value.depths, depth_stringValue, depth_intValue,
        hsecurity, security.depth_value]

/-- The document is within the limit if the payload leaves one level of nesting. -/
theorem Envelope.depth_value_le_iff (envelope : Envelope) (payload : Value (List Chunk)) :
    (envelope.value payload).depth ≤ maxNestingDepth ↔ payload.depth < maxNestingDepth := by
  rw [envelope.depth_value payload, maxNestingDepth]
  split <;> omega

theorem Envelope.marshal_eq_some_iff {raw : Bytes} :
    envelope.marshal = some raw ↔
      ∃ payload, payloadValue envelope.payload = some payload ∧
        payload.depth < maxNestingDepth ∧ Json.render (envelope.value payload) = raw := by
  unfold Envelope.marshal
  cases payloadValue envelope.payload with
  | none => simp
  | some payload => simp [envelope.depth_value_le_iff]

theorem wellFormed_payloadValue {text : Bytes} (h : payloadValue text = some payload) :
    Json.WellFormed payload := by
  unfold payloadValue at h
  split_ifs at h
  · cases h
    trivial
  · obtain ⟨value, hscan, rfl⟩ := Option.map_eq_some_iff.mp h
    obtain ⟨hparse, -⟩ := Option.filter_eq_some_iff.mp hscan
    exact wellFormed_compacted (Json.wellFormed_of_parse hparse)

/-- A written envelope passes the scanner if its payload leaves one level of nesting. -/
theorem Envelope.scan_render (envelope : Envelope) (h : Json.WellFormed payload) :
    scan (Json.render (envelope.value payload)) =
      if payload.depth < maxNestingDepth then some (envelope.value payload) else none := by
  have hwellFormed : Json.WellFormed (envelope.value payload) :=
    EnvelopeField.struct.wellFormed_members (envelope.wellFormed_fields h)
  rw [scan, Json.parse_render hwellFormed]
  simp only [Option.filter_some, envelope.depth_value_le_iff, decide_eq_true_eq]

/-- **A written envelope comes back repaired**, if its payload leaves one level of nesting. -/
theorem unmarshal_render (h : envelope.InRange) (hpayload : Json.WellFormed payload) :
    unmarshalEnvelope (Json.render (envelope.value payload)) =
      if payload.depth < maxNestingDepth then
        some { envelope.repaired with payload := Json.render payload }
      else none := by
  rw [unmarshalEnvelope, envelope.scan_render hpayload]
  by_cases hdepth : payload.depth < maxNestingDepth
  · rw [if_pos hdepth, if_pos hdepth]
    exact Envelope.read_value h hpayload
  · rw [if_neg hdepth, if_neg hdepth]

/-- What was written is read. -/
theorem unmarshal_of_marshal {raw : Bytes} (h : envelope.InRange)
    (hmarshal : envelope.marshal = some raw) :
    ∃ payload, unmarshalEnvelope raw = some { envelope.repaired with payload := payload } := by
  obtain ⟨payload, hpayload, hroom, rfl⟩ := Envelope.marshal_eq_some_iff.mp hmarshal
  have hread := unmarshal_render h (wellFormed_payloadValue hpayload)
  rw [if_pos hroom] at hread
  exact ⟨_, hread⟩

/-! ## Lengths -/

/-- The text of an envelope is longer than its id. -/
theorem Envelope.length_id_le (envelope : Envelope) (payload : Value (List Chunk)) :
    envelope.id.length ≤ (Json.render (envelope.value payload)).length := by
  have hmem : (Json.plainBody (EnvelopeField.name .id), stringValue envelope.id) ∈
      EnvelopeField.struct.members (envelope.fields payload) :=
    List.mem_filterMap.mpr ⟨.id, List.mem_cons_self, rfl⟩
  have hquote := length_le_quote envelope.id
  have hstring : (Json.render (stringValue envelope.id)).length =
      (Json.bodyText (quote envelope.id)).length + 2 := by
    simp [Json.render, Value.fold, stringValue, Json.printer, Json.quoted]
  have hrender := Json.length_render_le hmem
  simp only [hstring] at hrender
  exact Nat.le_trans (by omega) hrender

end Written

end Ubiq.Message
