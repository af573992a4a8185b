import Ubiq.Core.WireRoundTrip
import Ubiq.Nats.Client
import Ubiq.Nats.Commands

/-!
# Canonical identity across bindings

The route of `http_binding.zig` and the subject of `publishEnvelope` are the canonical name
itself. Every name that `CanonicalEvent.parse` accepts comes back from the route, is a valid
subject, and an envelope that is published comes back from the message with the subject and the
payload of its `PUB` frame.
-/

namespace Ubiq.Nats

open Foundation
open Foundation.Stateful (bind_of_ok)
open Ubiq.Core (CanonicalEvent)

/-! ## The HTTP route -/

/-- The errors of `eventFromTarget`. -/
inductive HttpBindingError
  | invalidRoute
  | eventName (err : Core.EventNameError)
deriving DecidableEq, Repr

/-- `route_prefix`. -/
def routePath : Bytes := ascii "/v1/events/"

/-- `routeFor` into a buffer of the given size; its error is `BufferTooSmall`. -/
def routeFor (canonicalEvent : Bytes) (size : Nat) : Option Bytes :=
  if size < routePath.length + canonicalEvent.length then none
  else some (routePath ++ canonicalEvent)

def eventFromTarget (target : Bytes) : Except HttpBindingError CanonicalEvent :=
  match Format.strip routePath target with
  | none => .error .invalidRoute
  | some name =>
      if name.length = 0 ∨ name.any (fun c => c = 63) then .error .invalidRoute
      else
        match CanonicalEvent.parse name with
        | .error err => .error (.eventName err)
        | .ok event => .ok event

section Names

variable {name : Bytes} {event : CanonicalEvent}

/-- The bytes of a canonical name are printable, and none of them is `?`. -/
theorem nameByte_bounds {byte : UInt8} (h : Core.nameByte byte = true) :
    32 < byte ∧ byte ≠ 0x7f ∧ byte ≠ 63 := by
  have hall : ∀ n : Fin 256, Core.nameByte (UInt8.ofNat n) = true →
      (32 : UInt8) < UInt8.ofNat n ∧ UInt8.ofNat n ≠ 0x7f ∧ UInt8.ofNat n ≠ 63 := by decide +kernel
  have hbyte := hall ⟨byte.toNat, byte.toNat_lt⟩
  rw [UInt8.ofNat_toNat] at hbyte
  exact hbyte h

theorem nameByte_of_parse (h : CanonicalEvent.parse name = .ok event) {byte : UInt8}
    (hmem : byte ∈ name) : Core.nameByte byte = true :=
  List.all_eq_true.mp (Core.parse_eq_ok_iff.mp h).2.1 byte hmem

theorem ne_nil_of_parse (h : CanonicalEvent.parse name = .ok event) : name ≠ [] := by
  rintro rfl
  cases h

theorem isField_of_parse (h : CanonicalEvent.parse name = .ok event) : IsField name := by
  refine ⟨ne_nil_of_parse h, fun byte hmem => ?_⟩
  obtain ⟨hbig, hdelete, -⟩ := nameByte_bounds (nameByte_of_parse h hmem)
  exact ⟨hbig, hdelete⟩

theorem eventFromTarget_route (h : CanonicalEvent.parse name = .ok event) :
    eventFromTarget (routePath ++ name) = .ok event := by
  have hquery : ¬(name.any fun c => c = 63) = true := by
    simp only [List.any_eq_true, decide_eq_true_eq, not_exists, not_and]
    exact fun c hmem => (nameByte_bounds (nameByte_of_parse h hmem)).2.2
  have hlength : ¬(name.length = 0 ∨ (name.any fun c => c = 63) = true) := by
    rw [List.length_eq_zero_iff]
    exact not_or.mpr ⟨ne_nil_of_parse h, hquery⟩
  simp only [eventFromTarget, Format.strip_append, if_neg hlength, h]

end Names

/-! ## Envelopes over NATS -/

variable {envelope : Core.Envelope} {client published : Client} {subject payload : Bytes}
  {scratch : Nat}

theorem publishRaw_of_fits (hname : IsField subject)
    (hfits : (Request.pub subject none payload).bytes.length ≤ scratch) :
    publishRaw subject none payload scratch client =
      (.ok (), client.wrote (Request.pub subject none payload).bytes) := by
  rw [publishRaw, encodePub_eq_ok_iff.mpr ⟨hname, rfl, hfits⟩]
  rfl

/-- What a successful `publishRaw` wrote. -/
theorem publishRaw_eq_ok
    (h : publishRaw subject none payload scratch client = (.ok (), published)) :
    published = client.wrote (Request.pub subject none payload).bytes := by
  rw [publishRaw] at h
  cases hencode : encodePub scratch subject none payload with
  | error err =>
      rw [hencode] at h
      cases h
  | ok output =>
      obtain ⟨-, rfl, -⟩ := encodePub_eq_ok_iff.mp hencode
      rw [hencode] at h
      cases h
      rfl

/-- The `PUB` frame of an envelope. -/
def envelopeFrame (envelope : Core.Envelope) : Bytes :=
  (Request.pub envelope.event.name none (Core.Wire.frameWith 0 envelope)).bytes

theorem publishEnvelope_of_fits {wireBuffer : Bytes} {protocolBuffer : Nat}
    (hname : IsField envelope.event.name) (hfits : Core.Wire.Fits envelope)
    (hwire : Core.Wire.frameLength envelope ≤ wireBuffer.length)
    (hprotocol : (envelopeFrame envelope).length ≤ protocolBuffer) :
    publishEnvelope envelope wireBuffer protocolBuffer client =
      (.ok (), client.wrote (envelopeFrame envelope)) := by
  have hencode : Core.Wire.encode envelope wireBuffer = some (.ok
      { buffer := Core.Wire.frameWith 0 envelope ++ wireBuffer.drop (Core.Wire.frameLength envelope)
        frame := Core.Wire.frameWith 0 envelope }) := by
    rw [Core.Wire.encode_eq hfits, if_neg (Nat.not_lt.mpr hwire)]
    rfl
  rw [publishEnvelope, hencode]
  exact (bind_of_ok rfl _).trans (publishRaw_of_fits hname hprotocol)

/-- What a successful `publishEnvelope` wrote. -/
theorem publishEnvelope_eq_ok {wireBuffer : Bytes} {protocolBuffer : Nat}
    (h : publishEnvelope envelope wireBuffer protocolBuffer client = (.ok (), published)) :
    Core.Wire.Fits envelope ∧
      published = client.wrote (envelopeFrame envelope) := by
  by_cases hfits : Core.Wire.Fits envelope
  · by_cases hwire : Core.Wire.frameLength envelope ≤ wireBuffer.length
    · rw [publishEnvelope, Core.Wire.encode_eq hfits, if_neg (Nat.not_lt.mpr hwire)] at h
      exact ⟨hfits, publishRaw_eq_ok ((bind_of_ok rfl _).symm.trans h)⟩
    · rw [publishEnvelope, Core.Wire.encode_eq hfits, if_pos (Nat.not_le.mp hwire)] at h
      cases h
  · rw [publishEnvelope, Core.Wire.encode_of_not_fits hfits] at h
    cases h

/-- The delivery of a published envelope. -/
theorem nextEnvelope_delivery {buffers : Buffers} {delivery : Delivery}
    (hparse : CanonicalEvent.parse envelope.event.name = .ok envelope.event)
    (hfits : Core.Wire.Fits envelope) (hformed : delivery.WellFormed)
    (hsubject : delivery.subject = envelope.event.name)
    (hpayload : delivery.payload = Core.Wire.frameWith 0 envelope)
    (hroom : (Operation.deliver delivery).Fits client.capacity buffers) (rest : Bytes) :
    nextEnvelope buffers (client.at ((Operation.deliver delivery).bytes ++ rest)) =
      (.ok envelope, client.at rest) := by
  have hraw : nextRaw buffers (client.at ((Operation.deliver delivery).bytes ++ rest)) =
      (.ok delivery.raw, client.at rest) := by
    have hmessage : (Operation.deliver delivery).message? = some delivery.raw := rfl
    have hrun : nextRaw buffers
        (client.at (stream [] ++ ((Operation.deliver delivery).bytes ++ rest))) = _ :=
      nextRaw_message rfl hmessage (by simpa [Operation.WellFormed] using hformed)
        (by simpa using hroom) rest
    simpa [stream, pongs] using hrun
  have hdecode : Core.Wire.decode delivery.raw.payload = some (.ok envelope) := by
    rw [show delivery.raw.payload = _ from hpayload]
    exact (Core.Wire.wellFormed_frameWith hfits hparse (by decide)).2
  rw [nextEnvelope, bind_of_ok hraw, hdecode]
  refine (bind_of_ok rfl _).trans ?_
  have hsame : ¬delivery.raw.subject ≠ envelope.event.name := not_not.mpr hsubject
  rw [bind_of_ok (failIf_of_not hsame _)]
  rfl

/-! ## Identity -/

/-- An envelope survives the way over NATS: it is published if it fits, and if a message brings
back the subject and the payload of the `PUB` frame, it is received as it was. -/
structure SurvivesNats (envelope : Core.Envelope) : Prop where
  published : Core.Wire.Fits envelope → ∀ (client : Client) (wireBuffer : Bytes)
    (protocolBuffer : Nat), Core.Wire.frameLength envelope ≤ wireBuffer.length →
      (envelopeFrame envelope).length ≤ protocolBuffer →
        ∃ after, publishEnvelope envelope wireBuffer protocolBuffer client = (.ok (), after)
  received : ∀ (client after : Client) (wireBuffer : Bytes) (protocolBuffer : Nat),
    publishEnvelope envelope wireBuffer protocolBuffer client = (.ok (), after) →
      ∃ payload, after.output = client.output ++ (Request.pub envelope.event.name none payload).bytes ∧
        ∀ (buffers : Buffers) (receiver : Client) (delivery : Delivery) (rest : Bytes),
          delivery.WellFormed → delivery.headers = none →
            delivery.subject = envelope.event.name → delivery.payload = payload →
              (Operation.deliver delivery).Fits receiver.capacity buffers →
                receiver.input = (Operation.deliver delivery).bytes ++ rest →
                  nextEnvelope buffers receiver = (.ok envelope, receiver.at rest)

theorem survivesNats_of_parse
    (hparse : CanonicalEvent.parse envelope.event.name = .ok envelope.event) :
    SurvivesNats envelope where
  published := fun hfits client wireBuffer protocolBuffer hwire hprotocol =>
    ⟨_, publishEnvelope_of_fits (isField_of_parse hparse) hfits hwire hprotocol⟩
  received := by
    intro client after wireBuffer protocolBuffer hpublish
    obtain ⟨hfits, rfl⟩ := publishEnvelope_eq_ok hpublish
    refine ⟨Core.Wire.frameWith 0 envelope, rfl, ?_⟩
    intro buffers receiver delivery rest hformed _ hsubject hpayload hroom hinput
    have hreceived := nextEnvelope_delivery hparse hfits hformed hsubject hpayload hroom rest
    rwa [← hinput, Client.at_input] at hreceived

/-- **Canonical identity across bindings.** Every accepted name comes back from its HTTP route
and is a NATS subject, and every envelope with its event comes back from NATS. -/
theorem canonical_identity (name : Bytes) (event : CanonicalEvent)
    (hparse : CanonicalEvent.parse name = .ok event) :
    (event.name = name ∧ ∀ size, routePath.length + name.length ≤ size →
        ∃ route, routeFor name size = some route ∧ eventFromTarget route = .ok event) ∧
      validateSubject name = .ok () ∧
      ∀ envelope : Core.Envelope, envelope.event = event → SurvivesNats envelope := by
  have hname : event.name = name := (Core.parse_eq_ok_iff.mp hparse).1
  refine ⟨⟨hname, fun size hsize => ?_⟩, validateSubject_eq_ok_iff.mpr (isField_of_parse hparse), ?_⟩
  · exact ⟨_, if_neg (Nat.not_lt.mpr hsize), eventFromTarget_route hparse⟩
  · rintro envelope rfl
    exact survivesNats_of_parse (hname.symm ▸ hparse)

theorem canonical_identity_invoice :
    validateSubject (ascii "Financial.createInvoice.ok") = .ok () ∧
      SurvivesNats (Core.Wire.invoice (ascii "data")) := by
  have hidentity := canonical_identity (ascii "Financial.createInvoice.ok")
    ⟨ascii "Financial.createInvoice.ok", .ok⟩ (by decide +kernel)
  exact ⟨hidentity.2.1, hidentity.2.2 (Core.Wire.invoice (ascii "data")) rfl⟩

end Ubiq.Nats
