import Ubiq.Core.WireRoundTrip
import Ubiq.Foundation.Framing
import Ubiq.Foundation.Stateful

/-!
# Frames on a TCP stream

`tcp_binding.zig` writes an envelope as the length of its wire frame, four bytes, the most
significant first, and the frame. The receiver reads the length, checks it against its buffer and
`max_frame_bytes`, and decodes as many bytes.

The stream of a list of envelopes is `stream`; `sendAll_eq` says that the sender writes it, and
`delimits_receiveFramed` that the receiver takes the envelopes off it one by one.
-/

namespace Ubiq.Transports.Tcp

open Foundation
open Foundation.Stateful (bind_of_ok bind_of_error)
open Foundation.Framing (Delimits replies)
open Ubiq.Core (Envelope CanonicalEvent)
open Core.Wire (Fits frameLength frameWith)

/-! ## Sending -/

def maxFrameBytes : Nat := 4 * 1024 * 1024

/-- `TcpBindingError`; `safetyCheck` stands for a failed safety check. -/
inductive TcpBindingError
  | frameTooLarge
  | wire (err : Core.Wire.WireError)
  | endOfStream
  | writeFailed
  | safetyCheck
deriving DecidableEq, Repr

/-- A writer: the bytes that it still takes, and what was written. -/
structure Writer where
  room : Nat
  written : Bytes := []
deriving DecidableEq, Repr

/-- Code that writes. -/
abbrev Sending (α : Type) := Stateful TcpBindingError Writer α

/-- `if (condition) return err;`. -/
def failIf {σ : Type} (condition : Prop) [Decidable condition] (err : TcpBindingError) :
    Stateful TcpBindingError σ Unit :=
  Stateful.ofExcept (if condition then .error err else .ok ())

/-- A result of the wire codec. -/
def liftWire {σ α : Type} (result : Core.Wire.Checked α) : Stateful TcpBindingError σ α :=
  match result with
  | some (.ok value) => Stateful.ofExcept (.ok value)
  | some (.error err) => Stateful.ofExcept (.error (.wire err))
  | none => Stateful.ofExcept (.error .safetyCheck)

/-- `@intCast` to an unsigned type of the given number of bytes. -/
def intCast {σ : Type} (width value : Nat) : Stateful TcpBindingError σ Nat :=
  Stateful.ofExcept ((Core.Wire.intCast width value).elim (.error .safetyCheck) .ok)

/-- `writeAll`; a writer without room takes what it can. -/
def writeAll (bytes : Bytes) : Sending Unit := fun writer =>
  if bytes.length ≤ writer.room then
    (.ok (), { room := writer.room - bytes.length, written := writer.written ++ bytes })
  else
    (.error .writeFailed, { room := 0, written := writer.written ++ bytes.take writer.room })

def writeInt (width value : Nat) : Sending Unit :=
  writeAll (BigEndian.bytesOf width value)

def sendFramed (envelope : Envelope) (frameBuffer : Bytes) : Sending Unit := do
  let encoded ← liftWire (Core.Wire.encode envelope frameBuffer)
  failIf (encoded.frame.length > maxFrameBytes) .frameTooLarge
  -- `@intCast` to `u32`; `flush` has nothing to do, since a writer keeps nothing back
  let length ← intCast 4 encoded.frame.length
  writeInt 4 length
  writeAll encoded.frame

/-! ## Receiving -/

/-- Code that reads; the state is what is left to read. -/
abbrev Receiving (α : Type) := Stateful TcpBindingError Bytes α

/-- `takeInt`; nothing is taken if bytes are missing. -/
def takeInt (width : Nat) : Receiving Nat := fun input =>
  if input.length < width then (.error .endOfStream, input)
  else (.ok (BigEndian.valueOf (input.take width)), input.drop width)

/-- `readSliceAll` into a slice of the given length; what is there is taken if bytes are missing. -/
def readSliceAll (length : Nat) : Receiving Bytes := fun input =>
  if input.length < length then (.error .endOfStream, [])
  else (.ok (input.take length), input.drop length)

/-- `receiveFramed` with a buffer of the given size. -/
def receiveFramed (size : Nat) : Receiving Envelope := do
  let frameLen ← takeInt 4
  failIf (frameLen > size ∨ frameLen > maxFrameBytes) .frameTooLarge
  let frame ← readSliceAll frameLen
  liftWire (Core.Wire.decode frame)

/-- A call of `receiveFramed`. -/
def receive (input : Bytes) (size : Nat) : Bytes × Except TcpBindingError Envelope :=
  let outcome := receiveFramed size input
  (outcome.2, outcome.1)

/-! ## The stream -/

/-- The bytes of an envelope on the stream. -/
def framed (envelope : Envelope) : Bytes :=
  BigEndian.bytesOf 4 (frameLength envelope) ++ frameWith 0 envelope

/-- The bytes of envelopes on the stream. -/
def stream (envelopes : List Envelope) : Bytes :=
  envelopes.flatMap framed

/-- An envelope that can be sent: its event is canonical, and its frame is not too large. -/
structure Sendable (envelope : Envelope) : Prop where
  event : ∃ name, CanonicalEvent.parse name = .ok envelope.event
  fits : Fits envelope
  bounded : frameLength envelope ≤ maxFrameBytes

/-- The writer after it took the given bytes. -/
def Writer.wrote (writer : Writer) (bytes : Bytes) : Writer :=
  { room := writer.room - bytes.length, written := writer.written ++ bytes }

theorem Writer.wrote_wrote (writer : Writer) (first second : Bytes) :
    (writer.wrote first).wrote second = writer.wrote (first ++ second) := by
  simp [Writer.wrote, Nat.sub_sub]

theorem failIf_of_not {σ : Type} {condition : Prop} [Decidable condition] (h : ¬condition)
    (err : TcpBindingError) (state : σ) : failIf condition err state = (.ok (), state) := by
  rw [failIf, if_neg h]
  rfl

variable {writer : Writer} {envelope : Envelope}

theorem writeAll_of_le {bytes : Bytes} (h : bytes.length ≤ writer.room) :
    writeAll bytes writer = (.ok (), writer.wrote bytes) := if_pos h

theorem Sendable.frameLength_lt (h : Sendable envelope) :
    frameLength envelope < 256 ^ 4 :=
  h.bounded.trans_lt (by decide)

/-- **Step lemma for the sender.** -/
theorem sendFramed_eq {frameBuffer : Bytes} (h : Sendable envelope)
    (hbuffer : frameLength envelope ≤ frameBuffer.length)
    (hroom : (framed envelope).length ≤ writer.room) :
    sendFramed envelope frameBuffer writer = (.ok (), writer.wrote (framed envelope)) := by
  have hencode := Core.Wire.encode_eq h.fits frameBuffer
  rw [if_neg (not_lt.mpr hbuffer)] at hencode
  have hlength := Core.Wire.length_frameWith 0 envelope
  have hsmall : ¬(frameWith 0 envelope).length > maxFrameBytes := by
    rw [hlength]
    exact not_lt.mpr h.bounded
  have hcast : intCast 4 (frameWith 0 envelope).length writer = (.ok (frameLength envelope), writer) := by
    rw [intCast, Core.Wire.intCast, hlength, if_pos h.frameLength_lt]
    rfl
  rw [framed, List.length_append, BigEndian.length_bytesOf] at hroom
  have hfirst : writeInt 4 (frameLength envelope) writer =
      (.ok (), writer.wrote (BigEndian.bytesOf 4 (frameLength envelope))) := by
    refine writeAll_of_le ?_
    rw [BigEndian.length_bytesOf]
    omega
  have hsecond : (frameWith 0 envelope).length ≤
      (writer.wrote (BigEndian.bytesOf 4 (frameLength envelope))).room := by
    rw [Writer.wrote, BigEndian.length_bytesOf]
    dsimp only
    omega
  rw [sendFramed, hencode]
  refine (bind_of_ok rfl _).trans ?_
  rw [bind_of_ok (failIf_of_not hsmall _ writer), bind_of_ok hcast,
    bind_of_ok hfirst, writeAll_of_le hsecond, Writer.wrote_wrote]
  rfl

/-- A call of `sendFramed`: the envelope and the frame buffer. -/
structure Send where
  envelope : Envelope
  frameBuffer : Bytes
deriving DecidableEq, Repr

/-- Calls of `sendFramed` one after another. -/
def sendAll : List Send → Sending Unit
  | [] => pure ()
  | send :: sends => do
      sendFramed send.envelope send.frameBuffer
      sendAll sends

/-- **Run lemma for the sender**: it writes the stream of the envelopes. -/
theorem sendAll_eq {sends : List Send} (h : ∀ send ∈ sends, Sendable send.envelope)
    (hbuffer : ∀ send ∈ sends, frameLength send.envelope ≤ send.frameBuffer.length)
    (hroom : (stream (sends.map Send.envelope)).length ≤ writer.room) :
    sendAll sends writer = (.ok (), writer.wrote (stream (sends.map Send.envelope))) := by
  induction sends generalizing writer with
  | nil =>
      show (_, writer) = _
      simp [stream, Writer.wrote]
  | cons send sends ih =>
      obtain ⟨hfirst, hrest⟩ := List.forall_mem_cons.mp h
      obtain ⟨hfirstBuffer, hrestBuffer⟩ := List.forall_mem_cons.mp hbuffer
      have hsplit : stream ((send :: sends).map Send.envelope) =
          framed send.envelope ++ stream (sends.map Send.envelope) := by
        simp [stream]
      rw [hsplit, List.length_append] at hroom
      have hsent := sendFramed_eq hfirst hfirstBuffer (show _ ≤ writer.room by omega)
      have hleft : (stream (sends.map Send.envelope)).length ≤
          (writer.wrote (framed send.envelope)).room := by
        rw [Writer.wrote]
        dsimp only
        omega
      rw [sendAll, bind_of_ok hsent, ih hrest hrestBuffer hleft, Writer.wrote_wrote, ← hsplit]

/-! ## Reading one envelope -/

theorem takeInt_append {width value : Nat} (h : value < 256 ^ width) (rest : Bytes) :
    takeInt width (BigEndian.bytesOf width value ++ rest) = (.ok value, rest) := by
  have hlength := BigEndian.length_bytesOf width value
  have henough : ¬(BigEndian.bytesOf width value ++ rest).length < width := by
    rw [List.length_append, hlength]
    omega
  rw [takeInt, if_neg henough, List.take_left' hlength, List.drop_left' hlength,
    BigEndian.valueOf_bytesOf h]

/-- The length in front of a frame is read, and it passes the checks. -/
theorem receiveFramed_append {size : Nat} (h : Sendable envelope)
    (hsize : frameLength envelope ≤ size) (rest : Bytes) :
    receiveFramed size (BigEndian.bytesOf 4 (frameLength envelope) ++ rest) =
      (readSliceAll (frameLength envelope) >>= fun frame => liftWire (Core.Wire.decode frame))
        rest := by
  have hchecks : ¬(frameLength envelope > size ∨ frameLength envelope > maxFrameBytes) := by
    have := h.bounded
    omega
  rw [receiveFramed, bind_of_ok (takeInt_append h.frameLength_lt rest),
    bind_of_ok (failIf_of_not hchecks _ rest)]

/-- **Step lemma for the receiver.** It takes a whole envelope off the stream, and it reports the
end of the stream wherever the envelope is cut. -/
theorem delimits_receiveFramed :
    Delimits receive framed .endOfStream
      fun size envelope => Sendable envelope ∧ frameLength envelope ≤ size where
  whole := by
    rintro size envelope ⟨h, hsize⟩ rest
    obtain ⟨name, hname⟩ := h.event
    have hlength := Core.Wire.length_frameWith 0 envelope
    have hdecode :=
      (Core.Wire.wellFormed_frameWith h.fits (Core.Wire.parse_name hname) (by decide : 0 < 256 ^ 8)).2
    have hread : readSliceAll (frameLength envelope) (frameWith 0 envelope ++ rest) =
        (.ok (frameWith 0 envelope), rest) := by
      have henough : ¬(frameWith 0 envelope ++ rest).length < frameLength envelope := by
        rw [List.length_append, hlength]
        omega
      rw [readSliceAll, if_neg henough, List.take_left' hlength, List.drop_left' hlength]
    rw [receive, framed, List.append_assoc, receiveFramed_append h hsize, bind_of_ok hread, hdecode]
    rfl
  short := by
    rintro size envelope cut ⟨h, hsize⟩ hcut hshort
    by_cases hprefix : cut.length < 4
    · -- the length itself is cut
      refine ⟨cut, ?_, List.prefix_rfl⟩
      have htake : takeInt 4 cut = (.error .endOfStream, cut) := if_pos hprefix
      rw [receive, receiveFramed, bind_of_error htake]
    · -- the frame is cut
      have hlength := BigEndian.length_bytesOf 4 (frameLength envelope)
      obtain ⟨body, rfl⟩ := List.prefix_of_prefix_length_le (List.prefix_append _ _) hcut
        (by rw [hlength]; omega)
      have hbody : body.length < frameLength envelope := by
        rw [framed, List.length_append, List.length_append, Core.Wire.length_frameWith] at hshort
        omega
      have hread : readSliceAll (frameLength envelope) body = (.error .endOfStream, []) :=
        if_pos hbody
      refine ⟨[], ?_, List.nil_prefix⟩
      rw [receive, receiveFramed_append h hsize, bind_of_error hread]
  ended _ := rfl

/-! ## A whole stream -/

/-- **TCP framing is self-delimiting.** For all envelopes with a canonical event and a frame of at
most `max_frame_bytes`: with frame buffers that are large enough the sender writes the stream of
the envelopes. With buffers that are large enough for every frame, as many calls of the receiver
return the envelopes in their order and consume the stream, and on a strict prefix of the stream any
number of calls returns some first envelopes and then nothing but the end of the stream. -/
theorem receive_stream (sends : List Send) (writer : Writer)
    (hsendable : ∀ send ∈ sends, Sendable send.envelope)
    (hbuffer : ∀ send ∈ sends, frameLength send.envelope ≤ send.frameBuffer.length)
    (hroom : (stream (sends.map Send.envelope)).length ≤ writer.room) :
    let envelopes := sends.map Send.envelope
    let Large := fun sizes : List Nat =>
      ∀ size ∈ sizes, ∀ envelope ∈ envelopes, frameLength envelope ≤ size
    sendAll sends writer = (.ok (), writer.wrote (stream envelopes)) ∧
      (∀ sizes, Large sizes → sizes.length = envelopes.length →
        replies receive (stream envelopes) sizes = envelopes.map .ok ∧
          Execution.run (Execution.after receive) (stream envelopes) sizes = []) ∧
      ∀ cut, cut <+: stream envelopes → cut ≠ stream envelopes →
        ∃ passed, passed <+: envelopes ∧ passed ≠ envelopes ∧ ∀ sizes, Large sizes →
          replies receive cut sizes = (passed.take sizes.length).map .ok ++
            List.replicate (sizes.length - passed.length) (.error .endOfStream) := by
  intro envelopes Large
  have haccepts : ∀ sizes, Large sizes → ∀ size ∈ sizes, ∀ envelope ∈ envelopes,
      Sendable envelope ∧ frameLength envelope ≤ size := by
    intro sizes hlarge size hsize envelope henvelope
    obtain ⟨send, hsend, hof⟩ := List.mem_map.mp henvelope
    exact ⟨hof ▸ hsendable send hsend, hlarge size hsize envelope henvelope⟩
  refine ⟨sendAll_eq hsendable hbuffer hroom, fun sizes hlarge hlength => ⟨?_, ?_⟩, ?_⟩
  · have hwhole : stream envelopes <+: envelopes.flatMap framed := List.prefix_rfl
    have hreplies := delimits_receiveFramed.replies_of_isPrefix hwhole (haccepts sizes hlarge)
    have hwithin : Framing.within framed envelopes (stream envelopes).length = envelopes :=
      Framing.within_stream envelopes
    rw [hreplies, hwithin, hlength, List.take_length, Nat.sub_self, List.replicate_zero,
      List.append_nil]
  · have hrun := delimits_receiveFramed.run_stream (haccepts sizes hlarge) hlength []
    rwa [List.append_nil] at hrun
  · intro cut hcut hne
    have hshort : cut.length < (stream envelopes).length :=
      lt_of_le_of_ne hcut.length_le fun hlength => hne (hcut.eq_of_length hlength)
    refine ⟨Framing.within framed envelopes cut.length, Framing.within_isPrefix _ _, ?_, ?_⟩
    · intro hall
      have hfewer := Framing.length_within_lt hshort
      rw [hall] at hfewer
      exact lt_irrefl _ hfewer
    · exact fun sizes hlarge =>
        delimits_receiveFramed.replies_of_isPrefix hcut (haccepts sizes hlarge)

/-- Two invoices on one stream. -/
theorem receive_stream_invoices :
    let envelopes := [Core.Wire.invoice (ascii "a"), Core.Wire.invoice (ascii "bc")]
    let sends := envelopes.map fun envelope => Send.mk envelope (List.replicate 90 0)
    sendAll sends { room := 200 } = (.ok (), Writer.wrote { room := 200 } (stream envelopes)) ∧
      replies receive (stream envelopes) [90, 90] = envelopes.map .ok ∧
      ∃ passed, passed <+: envelopes ∧ passed ≠ envelopes ∧
        replies receive ((stream envelopes).take 100) [90, 90] = (passed.take 2).map .ok ++
          List.replicate (2 - passed.length) (.error .endOfStream) := by
  intro envelopes sends
  have hname : ∃ name, CanonicalEvent.parse name = .ok (Core.Wire.invoice []).event :=
    ⟨ascii "Financial.createInvoice.ok", by decide +kernel⟩
  have hfirst : Sendable (Core.Wire.invoice (ascii "a")) :=
    ⟨hname, by decide +kernel, by decide +kernel⟩
  have hsecond : Sendable (Core.Wire.invoice (ascii "bc")) :=
    ⟨hname, by decide +kernel, by decide +kernel⟩
  obtain ⟨hsent, hreceived, hcut⟩ := receive_stream sends { room := 200 }
    (by simp [sends, envelopes, hfirst, hsecond]) (by decide +kernel) (by decide +kernel)
  have hlarge : ∀ size ∈ [90, 90], ∀ envelope ∈ envelopes, frameLength envelope ≤ size := by
    decide +kernel
  obtain ⟨passed, hpassed, hne, hreplies⟩ := hcut ((stream envelopes).take 100)
    (List.take_prefix _ _) (by decide +kernel)
  exact ⟨hsent, (hreceived [90, 90] hlarge rfl).1, passed, hpassed, hne, hreplies [90, 90] hlarge⟩

end Ubiq.Transports.Tcp
