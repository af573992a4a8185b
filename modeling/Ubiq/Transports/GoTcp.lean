import Ubiq.Foundation.BigEndian
import Ubiq.Security.DigestTransport

/-!
# Frames of the Go TCP transport

`TCPTransport` of `tcp.go` writes the encoded envelope behind its length, four bytes, the most
significant first. The sender takes the length modulo 2³² both for the check against `MaxFrame` and
for the header; the receiver reads the header and as many bytes.

`handleConn_frame` says what the receiver does with a frame whose header is the length, and
`valueOf_header` what the header says of any body.
-/

namespace Ubiq.Transports.GoTcp

open Foundation
open Message (Envelope)
open Control (Json)
open Broker (CodecError encodeEnvelope decodeEnvelope)

/-- The fields of `TCPConfig` that decide about frames. -/
structure TcpConfig where
  name : Bytes
  peerAddr : Bytes := []
  maxFrame : UInt32 := 0
deriving DecidableEq, Repr

/-- The errors of `NewTCPTransport` and `Publish` before the connection is dialled. -/
inductive TcpError
  | nameRequired
  | peerNotConfigured
  | codec (err : CodecError)
  | frameTooLarge
deriving DecidableEq, Repr

/-- Their messages, where the transport makes them. -/
def TcpError.message : TcpError → Option Bytes
  | .nameRequired => some (ascii "tcp name required")
  | .peerNotConfigured => some (ascii "tcp peer address not configured")
  | .codec _ => none
  | .frameTooLarge => some (ascii "tcp frame too large")

/-- `NewTCPTransport`: the configuration of the transport. -/
def newTcpTransport (cfg : TcpConfig) : Except TcpError TcpConfig :=
  if cfg.name = [] then .error .nameRequired
  else .ok (if cfg.maxFrame = 0 then { cfg with maxFrame := (16 : UInt32) <<< (20 : UInt32) } else cfg)

/-- `binary.BigEndian.PutUint32(header[:], uint32(len(raw)))`. -/
def header (raw : Bytes) : Bytes :=
  BigEndian.bytesOf 4 (UInt32.ofNat raw.length).toNat

/-- `Publish`: what it writes to a connection that takes everything. -/
def publish (json : Json) (cfg : TcpConfig) (envelope : Envelope) : Except TcpError Bytes :=
  if cfg.peerAddr = [] then .error .peerNotConfigured
  else
    match encodeEnvelope json envelope with
    | .error err => .error (.codec err)
    | .ok raw =>
        if UInt32.ofNat raw.length > cfg.maxFrame then .error .frameTooLarge
        else .ok (header raw ++ raw)

/-- What the receiver makes of a connection: the bodies that it hands to `decodeEnvelope`, and the
bytes behind the last of them. -/
structure Served where
  bodies : List Bytes := []
  left : Bytes := []
deriving DecidableEq, Repr

/-- The loop of `handleConn` on the bytes of a connection. -/
def handleConn (maxFrame : UInt32) (input : Bytes) : Served :=
  if _hshort : input.length < 4 then { left := input }
  else
    let n := BigEndian.valueOf (input.take 4)
    if n = 0 ∨ n > maxFrame.toNat then { left := input }
    else if (input.drop 4).length < n then { left := input }
    else
      let rest := handleConn maxFrame ((input.drop 4).drop n)
      { rest with bodies := (input.drop 4).take n :: rest.bodies }
termination_by input.length
decreasing_by
  simp only [List.length_drop]
  omega

/-- The envelopes that `handleConn` dispatches. -/
def dispatched (json : Json) (served : Served) : List Envelope :=
  served.bodies.filterMap fun raw => (decodeEnvelope json raw).toOption

/-! ## One frame -/

variable {json : Json} {maxFrame : UInt32} {raw : Bytes} {cfg : TcpConfig} {envelope : Envelope}

@[simp] theorem length_header (raw : Bytes) : (header raw).length = 4 :=
  BigEndian.length_bytesOf 4 _

/-- The header says the length modulo 2³². -/
theorem valueOf_header (raw : Bytes) : BigEndian.valueOf (header raw) = raw.length % 2 ^ 32 := by
  rw [header, BigEndian.valueOf_bytesOf (by simpa using (UInt32.ofNat raw.length).toNat_lt)]
  rfl

theorem handleConn_nil (maxFrame : UInt32) : handleConn maxFrame [] = {} := by
  rw [handleConn, dif_pos (by decide)]

/-- A frame with its length in front is taken off the connection whole. -/
theorem handleConn_frame (hpos : raw ≠ []) (hlength : raw.length < 2 ^ 32)
    (hmax : raw.length ≤ maxFrame.toNat) : handleConn maxFrame (header raw ++ raw) = ⟨[raw], []⟩ := by
  have htake : (header raw ++ raw).take 4 = header raw := by simp
  have hdrop : (header raw ++ raw).drop 4 = raw := by simp
  have hvalue : BigEndian.valueOf ((header raw ++ raw).take 4) = raw.length := by
    rw [htake, valueOf_header, Nat.mod_eq_of_lt hlength]
  have hne : raw.length ≠ 0 := by simpa using hpos
  rw [handleConn, dif_neg (by simp)]
  simp only [hvalue, hdrop]
  rw [if_neg (by omega), if_neg (by omega), List.drop_length, List.take_length, handleConn_nil]

/-! ## A publication and what arrives -/

/-- What a publication writes is a header that says the length of the body and the body, and a
receiver with the same configuration takes exactly this body off the connection. -/
def Carried (json : Json) (cfg : TcpConfig) (envelope : Envelope) : Prop :=
  ∀ written, publish json cfg envelope = .ok written →
    ∃ first body, written = first ++ body ∧ first.length = 4 ∧
      encodeEnvelope json envelope = .ok body ∧ BigEndian.valueOf first = body.length ∧
      handleConn cfg.maxFrame written = ⟨[body], []⟩

theorem publish_eq_ok_iff {written : Bytes} :
    publish json cfg envelope = .ok written ↔
      cfg.peerAddr ≠ [] ∧ ∃ raw, encodeEnvelope json envelope = .ok raw ∧
        raw.length % 2 ^ 32 ≤ cfg.maxFrame.toNat ∧ header raw ++ raw = written := by
  unfold publish
  split_ifs with hpeer
  · simp [hpeer]
  · cases hencode : encodeEnvelope json envelope with
    | error err => simp
    | ok raw =>
        have hsize : UInt32.ofNat raw.length > cfg.maxFrame ↔
            ¬raw.length % 2 ^ 32 ≤ cfg.maxFrame.toNat := by
          rw [gt_iff_lt, UInt32.lt_iff_toNat_lt, Nat.not_le]
          rfl
        simp only [hsize]
        split_ifs with hlarge <;> simp_all

/-- A header of four bytes says less than 2³². -/
theorem Carried.length_lt (h : Carried json cfg envelope) (hpeer : cfg.peerAddr ≠ [])
    (hencode : encodeEnvelope json envelope = .ok raw)
    (hsize : raw.length % 2 ^ 32 ≤ cfg.maxFrame.toNat) : raw.length < 2 ^ 32 := by
  obtain ⟨first, body, -, hfirst, hbody, hvalue, -⟩ :=
    h _ (publish_eq_ok_iff.mpr ⟨hpeer, raw, hencode, hsize, rfl⟩)
  obtain rfl := Except.ok.inj (hencode.symm.trans hbody)
  have hlt := BigEndian.valueOf_lt first
  rw [hvalue, hfirst] at hlt
  exact hlt

/-- **Frames carry what was sent** exactly if an encoded envelope that passes the check of the sender
is shorter than 2³² bytes; this is so for every `Marshal` that writes something. -/
theorem carried_iff (json : Json) (hwrites : ∀ envelope, json.marshal envelope ≠ some [])
    (cfg : TcpConfig) (envelope : Envelope) :
    Carried json cfg envelope ↔
      (cfg.peerAddr ≠ [] → ∀ raw, encodeEnvelope json envelope = .ok raw →
        raw.length % 2 ^ 32 ≤ cfg.maxFrame.toNat → raw.length < 2 ^ 32) := by
  constructor
  · intro h hpeer raw hencode hsize
    exact h.length_lt hpeer hencode hsize
  · intro h written hwritten
    obtain ⟨hpeer, raw, hencode, hsize, rfl⟩ := publish_eq_ok_iff.mp hwritten
    have hlength := h hpeer raw hencode hsize
    have hmarshal := (Broker.encodeEnvelope_eq_ok_iff.mp hencode).2
    have hne : raw ≠ [] := by
      rintro rfl
      exact hwrites envelope hmarshal
    rw [Nat.mod_eq_of_lt hlength] at hsize
    refine ⟨header raw, raw, rfl, length_header raw, hencode, ?_, ?_⟩
    · rw [valueOf_header, Nat.mod_eq_of_lt hlength]
    · exact handleConn_frame hne hlength hsize

/-! ## With `encoding/json` -/

open Security (encodingJson)

theorem encodingJson_writes (envelope : Envelope) : encodingJson.marshal envelope ≠ some [] := by
  intro h
  obtain ⟨payload, -, -, hnil⟩ :=
    Envelope.marshal_eq_some_iff.mp (Security.encodingJson_marshal_iff.mp h).2
  rw [Envelope.value, Json.render_object] at hnil
  cases hnil

/-- The default limit. -/
def limited : TcpConfig where
  name := ascii "tcp"
  peerAddr := ascii "127.0.0.1:7000"
  maxFrame := (16 : UInt32) <<< (20 : UInt32)

theorem carried_order : Carried encodingJson limited (Broker.order "create") := by
  refine (carried_iff encodingJson encodingJson_writes limited (Broker.order "create")).mpr ?_
  intro _ raw hencode _
  have hshort : ∀ raw ∈ (encodeEnvelope encodingJson (Broker.order "create")).toOption,
      raw.length < 2 ^ 32 := by
    decide +kernel
  rw [hencode] at hshort
  exact hshort raw rfl

/-! ## A frame that is too long -/

/-- The largest limit. -/
def unlimited : TcpConfig :=
  { limited with maxFrame := 0xFFFFFFFF }

/-- An event with an id of the given length. -/
def longOrder (length : Nat) : Envelope :=
  { Broker.order "create" with id := List.replicate length 97 }

theorem encodeEnvelope_longOrder {length : Nat} (h : length ≠ 0) :
    ∃ raw, encodeEnvelope encodingJson (longOrder length) = .ok raw ∧ length ≤ raw.length := by
  have hvalid : (Broker.order "create").validate GoJson.valid = .ok () := by decide +kernel
  obtain ⟨⟨-, hkey, hschema, hcorrelation⟩, hstate, hguarantee, hpayload, hscan⟩ :=
    Envelope.validate_eq_ok_iff.mp hvalid
  have hlong : (longOrder length).validate GoJson.valid = .ok () := by
    refine Envelope.validate_eq_ok_iff.mpr
      ⟨⟨?_, hkey, hschema, hcorrelation⟩, hstate, hguarantee, hpayload, hscan⟩
    simpa [longOrder, List.replicate_eq_nil_iff] using h
  have hrange : (longOrder length).InRange :=
    ⟨(by decide : GoJson.IsInt64 0), fun _ hsecurity => nomatch hsecurity⟩
  have hroom : Security.payloadNesting (longOrder length) < GoJson.maxNestingDepth := by
    show Security.payloadNesting (Broker.order "create") < _
    decide +kernel
  obtain ⟨value, hvalue, -, hnesting, -⟩ := Security.scan_of_validate hlong
  have hmarshal := Security.marshal_of_scan hvalue
  rw [hnesting, if_pos hroom] at hmarshal
  refine ⟨Json.render ((longOrder length).value (GoJson.compacted value)), ?_, ?_⟩
  · exact Broker.encodeEnvelope_eq_ok_iff.mpr
      ⟨hlong, Security.encodingJson_marshal_iff.mpr ⟨hrange, hmarshal⟩⟩
  · have hid := (longOrder length).length_id_le (GoJson.compacted value)
    have hreplicate : (longOrder length).id.length = length := List.length_replicate
    rw [hreplicate] at hid
    exact hid

theorem not_carried_of_long {length : Nat} (h : 2 ^ 32 ≤ length) :
    ¬Carried encodingJson unlimited (longOrder length) := by
  intro hcarried
  obtain ⟨raw, hencode, hlength⟩ := encodeEnvelope_longOrder (show length ≠ 0 by omega)
  have hsize : raw.length % 2 ^ 32 ≤ unlimited.maxFrame.toNat := by
    have hlt := Nat.mod_lt raw.length (show 0 < 2 ^ 32 by norm_num)
    have hmax : unlimited.maxFrame.toNat = 2 ^ 32 - 1 := by decide
    omega
  have hlt := hcarried.length_lt (by decide +kernel) hencode hsize
  omega

/-- Four gigabytes pass the check, and the header says a few hundred bytes. -/
theorem not_carried_fourGigabytes : ¬Carried encodingJson unlimited (longOrder (2 ^ 32)) :=
  not_carried_of_long (Nat.le_refl _)

end Ubiq.Transports.GoTcp
