import Ubiq.Broker.Messages
import Ubiq.Core.Event
import Ubiq.Message.EnvelopeJson
import Ubiq.Security.Redelivery

/-!
# The signed digest in transport

`SecureTransport.Publish` signs the digest of an envelope, and `Subscribe` computes the digest of
the envelope that `decodeEnvelope` returns. The digest is over a new serialisation, so it depends
on what `encoding/json` does to the strings and to the payload on the way.

* `decodeEnvelope_encodeEnvelope`: what a validated envelope becomes in transport.
* `digestSurvives_iff`: the canonical bytes survive exactly for a payload that leaves one level of
  nesting to the envelope around it. `Validate` takes one level more.
* `publish_bound`: a published envelope reaches the subscriber with the digest in its proof.
-/

namespace Ubiq.Security

open Foundation
open Foundation.GoJson
open Json (Chunk Value)
open Message
open Broker (encodeEnvelope decodeEnvelope)

/-- `encoding/json` at the type `Envelope`. The times are of type `int64`; outside its range there
is no such envelope. -/
def encodingJson : Control.Json where
  valid := GoJson.valid
  marshal envelope := if envelope.InRange then envelope.marshal else none
  unmarshal := unmarshalEnvelope

/-- What the text of the error of `Marshal` for a raw message begins with. -/
def rawMessageError : Bytes := ascii "json: error calling MarshalJSON for type "

/-- The functions of a proof with `encoding/json` for envelopes. -/
def withEncodingJson (prims : Primitives) : Primitives :=
  { prims with
    jsonValid := GoJson.valid
    marshalEnvelope := fun envelope =>
      match envelope.marshal with
      | none => .error rawMessageError
      | some raw => .ok raw }

/-- The levels of arrays and objects in the payload. -/
def payloadNesting (envelope : Envelope) : Nat :=
  ((Json.parse envelope.payload).map Value.depth).getD 0

/-- The envelope is sent and received, and its canonical bytes and its digest are the same on both
sides. -/
def DigestSurvives (prims : Primitives) (envelope : Envelope) : Prop :=
  ∃ raw decoded bytes, encodeEnvelope encodingJson envelope = .ok raw ∧
    decodeEnvelope encodingJson raw = .ok decoded ∧
    canonicalBytes (withEncodingJson prims) envelope = .ok bytes ∧
    canonicalBytes (withEncodingJson prims) decoded = .ok bytes ∧
    digestHex (withEncodingJson prims) decoded = digestHex (withEncodingJson prims) envelope

/-! ## Validated envelopes -/

theorem nameByte_ascii {byte : UInt8} (h : Core.nameByte byte = true) : byte ≤ 0x7F := by
  have hall : ∀ n : Fin 256, Core.nameByte (UInt8.ofNat n) = true → UInt8.ofNat n ≤ 0x7F := by
    decide +kernel
  have hbyte := hall ⟨byte.toNat, byte.toNat_lt⟩
  rw [UInt8.ofNat_toNat] at hbyte
  exact hbyte h

variable {envelope : Envelope} {value : Value (List Chunk)} {prims : Primitives}

/-- A canonical event is ASCII. -/
theorem event_ascii {state : EventState} (h : envelope.state = .ok state) :
    ∀ c ∈ envelope.event, c ≤ 0x7F := by
  have hsegments := (Core.state_eq_ok_iff.mp h).1.2
  have hbytes := List.all_eq_true.mp (Core.all_segment_iff.mp hsegments).1
  exact fun c hc => nameByte_ascii (hbytes c hc)

/-- Repairing changes neither the event nor the guarantee of a validated envelope. -/
theorem repaired_of_validate {jsonValid : Bytes → Bool} (h : envelope.validate jsonValid = .ok ()) :
    envelope.repaired.event = envelope.event ∧
      envelope.repaired.guarantee = envelope.guarantee := by
  obtain ⟨-, ⟨state, hstate⟩, hguarantee, -⟩ := Envelope.validate_eq_ok_iff.mp h
  constructor
  · exact Utf8.repair_of_valid (Utf8.valid_of_ascii (event_ascii hstate))
  · cases hcase : envelope.guarantee with
    | other text => exact absurd hcase (hguarantee text)
    | _ => simp only [Envelope.repaired, hcase]; decide +kernel

/-- The payload of a validated envelope is scanned. -/
theorem scan_of_validate (h : envelope.validate GoJson.valid = .ok ()) :
    ∃ value, scan envelope.payload = some value ∧ Json.WellFormed value ∧
      value.depth = payloadNesting envelope ∧ value.depth ≤ maxNestingDepth := by
  obtain ⟨-, -, -, -, hvalid⟩ := Envelope.validate_eq_ok_iff.mp h
  obtain ⟨value, hscan⟩ := Option.isSome_iff_exists.mp hvalid
  obtain ⟨hparse, hdepth⟩ := Option.filter_eq_some_iff.mp hscan
  refine ⟨value, hscan, Json.wellFormed_of_parse hparse, ?_, of_decide_eq_true hdepth⟩
  rw [payloadNesting, hparse]
  rfl

/-- A printed payload within the limit is scanned again. -/
theorem scan_render_of_depth (h : Json.WellFormed value) (hdepth : value.depth ≤ maxNestingDepth) :
    scan (Json.render value) = some value := by
  rw [scan, Json.parse_render h, Option.filter_some, if_pos (decide_eq_true hdepth)]

theorem render_ne_nil (h : Json.WellFormed value) :
    Json.render value ≠ [] := by
  intro hnil
  have hparse := Json.parse_render h
  rw [hnil] at hparse
  cases hparse

/-- What an envelope with this payload becomes in transport. -/
def transported (envelope : Envelope) (payload : Value (List Chunk)) : Envelope :=
  { envelope.repaired with payload := Json.render (compacted payload) }

theorem validate_transported (h : envelope.validate GoJson.valid = .ok ())
    (hvalue : Json.WellFormed value) (hdepth : value.depth ≤ maxNestingDepth) :
    (transported envelope value).validate GoJson.valid = .ok () := by
  obtain ⟨⟨hid, hkey, hschema, hcorrelation⟩, ⟨state, hstate⟩, hguarantee, -, -⟩ :=
    Envelope.validate_eq_ok_iff.mp h
  obtain ⟨hevent, hsame⟩ := repaired_of_validate h
  have hcompacted := wellFormed_compacted hvalue
  have hscan := scan_render_of_depth hcompacted ((depth_compacted value).trans_le hdepth)
  have hrepair : ∀ text, text ≠ [] → Utf8.repair text ≠ [] := fun text =>
    mt Utf8.repair_eq_nil_iff.mp
  refine Envelope.validate_eq_ok_iff.mpr ⟨⟨hrepair _ hid, hrepair _ hkey, hrepair _ hschema,
    hrepair _ hcorrelation⟩, ⟨state, ?_⟩, ?_, render_ne_nil hcompacted, ?_⟩
  · simpa only [Envelope.state, transported, hevent] using hstate
  · intro text
    rw [transported, hsame]
    exact hguarantee text
  · exact Option.isSome_iff_exists.mpr ⟨_, hscan⟩

/-! ## Sending and receiving -/

theorem marshal_of_scan (h : scan envelope.payload = some value) :
    envelope.marshal =
      if value.depth < maxNestingDepth then
        some (Json.render (envelope.value (compacted value)))
      else none := by
  have hne : envelope.payload ≠ [] := by
    intro hnil
    rw [hnil] at h
    cases h
  rw [Envelope.marshal, payloadValue, if_neg hne, h]
  simp only [Option.map_some, envelope.depth_value_le_iff, depth_compacted]

/-- An envelope that is written has a payload with one level to spare. -/
theorem depth_of_marshal {raw : Bytes} (h : envelope.marshal = some raw)
    (hscan : scan envelope.payload = some value) : value.depth < maxNestingDepth := by
  rw [marshal_of_scan hscan] at h
  by_contra hdeep
  rw [if_neg hdeep] at h
  cases h

/-- What is written is in range. -/
theorem encodingJson_marshal_iff {raw : Bytes} :
    encodingJson.marshal envelope = some raw ↔ envelope.InRange ∧ envelope.marshal = some raw := by
  simp [encodingJson]

/-- What a validated envelope becomes in transport. -/
theorem decodeEnvelope_encodeEnvelope (h : envelope.validate GoJson.valid = .ok ())
    (hrange : envelope.InRange) (hscan : scan envelope.payload = some value)
    (hvalue : Json.WellFormed value) (hroom : value.depth < maxNestingDepth) :
    encodeEnvelope encodingJson envelope =
        .ok (Json.render (envelope.value (compacted value))) ∧
      decodeEnvelope encodingJson (Json.render (envelope.value (compacted value))) =
        .ok (transported envelope value) := by
  constructor
  · have hmarshal := marshal_of_scan hscan
    rw [if_pos hroom] at hmarshal
    exact Broker.encodeEnvelope_eq_ok_iff.mpr ⟨h, encodingJson_marshal_iff.mpr ⟨hrange, hmarshal⟩⟩
  · have hunmarshal := unmarshal_render hrange (wellFormed_compacted hvalue)
    rw [depth_compacted, if_pos hroom] at hunmarshal
    have hagain := validate_transported h hvalue hroom.le
    rw [transported] at hagain
    simp only [decodeEnvelope, encodingJson, hunmarshal, hagain, transported]

/-- The canonical bytes of a validated envelope. -/
theorem canonicalBytes_of_scan (prims : Primitives) (h : envelope.validate GoJson.valid = .ok ())
    (hscan : scan envelope.payload = some value) (hroom : value.depth < maxNestingDepth) :
    canonicalBytes (withEncodingJson prims) envelope =
      .ok (Json.render ({ envelope with security := none }.value (compacted value))) := by
  have hmarshal : { envelope with security := none }.marshal = _ := marshal_of_scan hscan
  rw [if_pos hroom] at hmarshal
  simp only [canonicalBytes, withEncodingJson, h, hmarshal]

/-- The canonical bytes on the other side are the same. -/
theorem canonicalBytes_transported (prims : Primitives)
    (h : envelope.validate GoJson.valid = .ok ()) (hvalue : Json.WellFormed value)
    (hroom : value.depth < maxNestingDepth) :
    canonicalBytes (withEncodingJson prims) (transported envelope value) =
      .ok (Json.render ({ envelope with security := none }.value (compacted value))) := by
  have hdepth := depth_compacted value
  have hscan : scan (transported envelope value).payload = some (compacted value) :=
    scan_render_of_depth (wellFormed_compacted hvalue) (hdepth.trans_le hroom.le)
  rw [canonicalBytes_of_scan prims (validate_transported h hvalue hroom.le) hscan
    (hdepth.trans_lt hroom), compacted_compacted]
  exact congrArg (fun value => Except.ok (Json.render value))
    ({ envelope with security := none }.value_repaired (compacted value))

/-- **The signed digest survives transport** exactly for a payload that leaves one level of
nesting to the envelope around it. -/
theorem digestSurvives_iff (prims : Primitives) {envelope : Envelope}
    (h : envelope.validate GoJson.valid = .ok ()) (hrange : envelope.InRange) :
    DigestSurvives prims envelope ↔ payloadNesting envelope < maxNestingDepth := by
  obtain ⟨value, hscan, hvalue, hnesting, -⟩ := scan_of_validate h
  rw [← hnesting]
  constructor
  · rintro ⟨raw, -, -, hraw, -⟩
    obtain ⟨-, hmarshal⟩ := Broker.encodeEnvelope_eq_ok_iff.mp hraw
    exact depth_of_marshal (encodingJson_marshal_iff.mp hmarshal).2 hscan
  · intro hroom
    obtain ⟨hencode, hdecode⟩ := decodeEnvelope_encodeEnvelope h hrange hscan hvalue hroom
    have hsent := canonicalBytes_of_scan prims h hscan hroom
    have hreceived := canonicalBytes_transported prims h hvalue hroom
    refine ⟨_, _, _, hencode, hdecode, hsent, hreceived, ?_⟩
    rw [digestHex, digestHex, hreceived, hsent]

/-- An envelope whose payload has white space and a character that is written as an escape. -/
def spacedEnvelope : Envelope where
  id := [0xC3, 0xA9]
  event := ascii "orders.create.request"
  correlationId := ascii "c<1>"
  idempotencyKey := ascii "k\"1"
  schemaId := ascii "s1"
  payload := ascii "[ 1,\t\"<a&b>\", null ] "
  guarantee := .processed
  createdAtMs := -5
  security := some ⟨[0xFF], ⟨[], 0, [], [], [], [], ⟨[4], []⟩⟩⟩

theorem validate_spacedEnvelope : spacedEnvelope.validate GoJson.valid = .ok () := by
  decide +kernel

theorem inRange_spacedEnvelope : spacedEnvelope.InRange := by
  refine ⟨by decide, ?_⟩
  rintro security ⟨⟩
  decide

/-- The digest is the text itself. -/
def textPrimitives : Primitives :=
  { orderPrimitives with sha256 := fun text => text }

theorem digestSurvives_spacedEnvelope : DigestSurvives textPrimitives spacedEnvelope :=
  (digestSurvives_iff textPrimitives validate_spacedEnvelope inRange_spacedEnvelope).mpr
    (by decide +kernel)

/-- A value inside the given number of arrays. -/
def nested : Nat → Value (List Chunk)
  | 0 => .null
  | levels + 1 => .array [nested levels]

theorem depth_nested (levels : Nat) : (nested levels).depth = levels := by
  induction levels with
  | zero => rfl
  | succ levels ih => simp [nested, Value.depth_array, Value.depths, ih]

theorem wellFormed_nested (levels : Nat) : Json.WellFormed (nested levels) := by
  induction levels with
  | zero => trivial
  | succ levels ih => simpa [nested, Json.wellFormed_array] using ih

/-- An envelope whose payload has all the levels that `json.Valid` takes. -/
def deepEnvelope : Envelope :=
  { spacedEnvelope with payload := Json.render (nested maxNestingDepth), security := none }

theorem scan_deepEnvelope : scan deepEnvelope.payload = some (nested maxNestingDepth) :=
  scan_render_of_depth (wellFormed_nested _) (depth_nested _).le

/-- `Validate` takes the payload, and `Marshal` fails on the envelope around it. -/
theorem not_digestSurvives_deepEnvelope :
    deepEnvelope.validate GoJson.valid = .ok () ∧ deepEnvelope.InRange ∧
      encodeEnvelope encodingJson deepEnvelope = .error .json ∧
      ∀ prims, ¬DigestSurvives prims deepEnvelope := by
  obtain ⟨hpresent, hstate, hguarantee, -⟩ := Envelope.validate_eq_ok_iff.mp validate_spacedEnvelope
  have hvalid : deepEnvelope.validate GoJson.valid = .ok () :=
    Envelope.validate_eq_ok_iff.mpr ⟨hpresent, hstate, hguarantee,
      render_ne_nil (wellFormed_nested _), Option.isSome_iff_exists.mpr ⟨_, scan_deepEnvelope⟩⟩
  have hmarshal : encodingJson.marshal deepEnvelope = none := by
    rw [Option.eq_none_iff_forall_ne_some]
    intro raw hraw
    have hroom := depth_of_marshal (encodingJson_marshal_iff.mp hraw).2 scan_deepEnvelope
    rw [depth_nested] at hroom
    exact hroom.false
  have hencode : encodeEnvelope encodingJson deepEnvelope = .error .json :=
    Broker.encodeEnvelope_of_marshal_none hvalid hmarshal
  refine ⟨hvalid, ⟨inRange_spacedEnvelope.1, fun _ hnone => by cases hnone⟩, hencode, ?_⟩
  rintro prims ⟨raw, -, -, hraw, -⟩
  cases hencode.symm.trans hraw

/-! ## Published envelopes -/

theorem hexEncode_ascii (text : Bytes) : ∀ c ∈ hexEncode text, c ≤ 0x7F := by
  have hdigit : ∀ digit < 16, Numeral.digitByte digit ≤ 0x7F := by decide
  intro c hc
  obtain ⟨byte, -, hpair⟩ := List.mem_flatMap.mp hc
  have hhigh : byte.toNat / 16 < 16 := by
    have hlt := byte.toNat_lt
    omega
  rcases List.mem_pair.mp hpair with rfl | rfl
  · exact hdigit _ hhigh
  · exact hdigit _ (Nat.mod_lt _ (by decide))

/-- An envelope with a digest is validated and written, and the digest is ASCII. -/
theorem digestHex_eq_ok {hash : Bytes} (h : digestHex prims envelope = .ok hash) :
    envelope.validate prims.jsonValid = .ok () ∧
      (∃ raw, prims.marshalEnvelope { envelope with security := none } = .ok raw) ∧
      ∀ c ∈ hash, c ≤ 0x7F := by
  unfold digestHex canonicalBytes at h
  cases hvalid : envelope.validate prims.jsonValid with
  | error err => simp [hvalid, Except.map] at h
  | ok _ =>
      simp only [hvalid] at h
      split at h
      · cases h
      · next raw hraw =>
          cases h
          exact ⟨rfl, ⟨raw, hraw⟩, hexEncode_ascii _⟩

/-- A published envelope carries the digest of what it was made from. -/
theorem publish_eq_ok {sign : Bytes → Except Bytes HybridSignature} {keyId nonce : Bytes}
    {transport : SecureTransport} {signed : Envelope} {now : Int}
    (h : transport.publish prims sign keyId nonce envelope now = .ok signed) :
    ∃ security, signed = { envelope with security := some security } ∧
      digestHex prims { envelope with security := none } = .ok security.proof.envelopeHash := by
  unfold SecureTransport.publish newPoP at h
  cases hdigest : digestHex prims { envelope with security := none } with
  | error err => simp [hdigest] at h
  | ok hash =>
      simp only [hdigest] at h
      split at h
      · cases h
      · rename_i proof hproof
        cases h
        refine ⟨_, rfl, ?_⟩
        split at hproof
        · cases hproof
        · split at hproof
          · cases hproof
          · cases hproof
            rfl

theorem marshal_of_withEncodingJson {raw : Bytes}
    (h : (withEncodingJson prims).marshalEnvelope envelope = .ok raw) :
    envelope.marshal = some raw := by
  simp only [withEncodingJson] at h
  split at h
  · cases h
  · next hmarshal => rw [hmarshal, Except.ok.inj h]

/-- **A published envelope stays bound to its proof**: it can be sent, and the subscriber finds the
digest of the unsigned envelope in the proof. -/
theorem publish_bound {sign : Bytes → Except Bytes HybridSignature} {keyId nonce : Bytes}
    {transport : SecureTransport} {signed : Envelope} {now : Int}
    (h : transport.publish (withEncodingJson prims) sign keyId nonce envelope now = .ok signed)
    (hrange : signed.InRange) :
    ∃ raw decoded security, encodeEnvelope encodingJson signed = .ok raw ∧
      decodeEnvelope encodingJson raw = .ok decoded ∧ decoded.security = some security ∧
      digestHex (withEncodingJson prims) { decoded with security := none } =
        .ok security.proof.envelopeHash := by
  obtain ⟨security, rfl, hdigest⟩ := publish_eq_ok h
  obtain ⟨hunsigned, ⟨bytes, hbytes⟩, hascii⟩ := digestHex_eq_ok hdigest
  -- neither `Validate` nor the digest reads the security header
  have hvalid : { envelope with security := some security }.validate GoJson.valid = .ok () :=
    hunsigned
  obtain ⟨value, hscan, hvalue, -⟩ := scan_of_validate hvalid
  -- the digest was taken of a written envelope, so the payload leaves one level
  have hroom : value.depth < maxNestingDepth :=
    depth_of_marshal (marshal_of_withEncodingJson hbytes) hscan
  obtain ⟨hencode, hdecode⟩ := decodeEnvelope_encodeEnvelope hvalid hrange hscan hvalue hroom
  refine ⟨_, _, security.repaired, hencode, hdecode, rfl, ?_⟩
  have hreceived := canonicalBytes_transported prims hvalid hvalue hroom
  have hsent := canonicalBytes_of_scan prims hvalid hscan hroom
  calc
    digestHex (withEncodingJson prims)
        { transported { envelope with security := some security } value with security := none }
      = digestHex (withEncodingJson prims)
          (transported { envelope with security := some security } value) := rfl
    _ = digestHex (withEncodingJson prims) { envelope with security := some security } := by
        rw [digestHex, digestHex, hreceived, hsent]
    _ = digestHex (withEncodingJson prims) { envelope with security := none } := rfl
    _ = .ok security.proof.envelopeHash := hdigest
    _ = .ok security.repaired.proof.envelopeHash := by
        rw [MessageSecurity.repaired, ProofOfPossession.repaired,
          Utf8.repair_of_valid (Utf8.valid_of_ascii hascii)]

/-- The order, published with `encoding/json`. -/
def signedOrder : Envelope :=
  ((ordersTransport 0).publish (withEncodingJson orderPrimitives) (fun _ => .ok ⟨[4], [5]⟩)
    alice.keyId [9] order (1 * second)).toOption.getD order

theorem publish_bound_order :
    ∃ raw decoded, encodeEnvelope encodingJson signedOrder = .ok raw ∧
      decodeEnvelope encodingJson raw = .ok decoded := by
  have hsigned : (ordersTransport 0).publish (withEncodingJson orderPrimitives)
      (fun _ => .ok ⟨[4], [5]⟩) alice.keyId [9] order (1 * second) = .ok signedOrder := by
    decide +kernel
  obtain ⟨raw, decoded, -, hraw, hdecoded, -⟩ :=
    publish_bound hsigned ⟨by decide, fun _ hsome => Option.some.inj hsome ▸ by decide⟩
  exact ⟨raw, decoded, hraw, hdecoded⟩

end Ubiq.Security
