import Ubiq.Core.WireRoundTrip
import Ubiq.Nats.Client
import Ubiq.Nats.Commands

/-!
# Publishing through JetStream

`JetStream.publish` of `jetstream.zig`: it subscribes to an inbox for one message, publishes the
encoded envelope with two header lines, and reads the acknowledgement of the server. The header
lines are formatted by `publish` and completed to a header block by `encodeHpub`.

`emits_iff` says when a frame is sent and which. `not_wellFormed_of_emits` and `faithful_iff` are
about the header block of that frame: it has no blank line at its end, and a line end in the
idempotency key starts a new header.
-/

namespace Ubiq.Nats

open Foundation
open Foundation.Stateful (bind_of_ok bind_of_error bind_eq_ok ofExcept_eq_ok)

/-! ## The rest of the client -/

/-- `subscribe`, with the size of its scratch buffer. -/
def subscribe (subject sid : Bytes) (scratch : Nat) : Session Unit := do
  let frame ← liftProtocol (encodeSub scratch subject sid)
  writeAll frame

/-- `unsubscribeAfter`, with the size of its scratch buffer. -/
def unsubscribeAfter (sid : Bytes) (maxMessages : UInt32) (scratch : Nat) : Session Unit := do
  let frame ← liftProtocol (encodeUnsub scratch sid (some maxMessages))
  writeAll frame

/-- `publishHeaders`, with the size of its scratch buffer. -/
def publishHeaders (subject : Bytes) (replyTo : Option Bytes) (headerLines payload : Bytes)
    (scratch : Nat) : Session Unit := do
  let frame ← liftProtocol (encodeHpub scratch subject replyTo headerLines payload)
  writeAll frame

/-! ## JetStream -/

/-- The errors of `JetStreamError` that `init` and `publish` return. -/
inductive JetStreamError
  | invalidStreamName
  | apiError
  | invalidPubAck
  | wrongStream
  | client (err : ClientError)
deriving DecidableEq, Repr

structure PubAck where
  stream : Bytes
  sequence : Nat
  duplicate : Bool
deriving DecidableEq, Repr

def validateAssetName (name : Bytes) (err : JetStreamError) : Except JetStreamError Unit :=
  if name.length = 0 ∨ name.length > 128 then .error err
  else if name.any fun byte => !(Core.isAlphanumeric byte || byte = 95 || byte = 45) then .error err
  else .ok ()

/-- `JetStream`, as `init` makes it; the client is the state of its calls. -/
structure JetStream where
  streamName : Bytes
  valid : validateAssetName streamName .invalidStreamName = .ok ()

def JetStream.init (streamName : Bytes) : Except JetStreamError JetStream :=
  match h : validateAssetName streamName .invalidStreamName with
  | .ok () => .ok ⟨streamName, h⟩
  | .error err => .error err

/-! ### The acknowledgement -/

/-- The text behind the first occurrence of `needle`, which `std.mem.indexOf` finds. -/
def textBehind (needle : Bytes) : Bytes → Option Bytes
  | [] => Format.strip needle []
  | c :: rest =>
      match Format.strip needle (c :: rest) with
      | some tail => some tail
      | none => textBehind needle rest

def hasApiError (payload : Bytes) : Bool :=
  (textBehind (ascii "\"error\":") payload).isSome

def extractJsonString (payload label : Bytes) : Option Bytes :=
  (textBehind label payload).bind fun tail => (Format.readUntil 34 tail).map Prod.fst

def extractJsonU64 (payload label : Bytes) : Option Nat :=
  (textBehind label payload).bind fun tail =>
    let digits := (tail.dropWhile fun c => c = space).takeWhile fun c => 48 ≤ c ∧ c ≤ 57
    if digits.length = 0 then none else Numeral.parseInt 10 (2 ^ 64) digits

def extractJsonBool (payload label : Bytes) : Option Bool :=
  (textBehind label payload).bind fun tail =>
    let value := tail.dropWhile fun c => c = space
    if (Format.strip (ascii "true") value).isSome then some true
    else if (Format.strip (ascii "false") value).isSome then some false
    else none

def parsePubAck (payload expectedStream : Bytes) : Except JetStreamError PubAck :=
  if hasApiError payload then .error .apiError
  else
    match extractJsonString payload (ascii "\"stream\":\"") with
    | none => .error .invalidPubAck
    | some stream =>
        if stream ≠ expectedStream then .error .wrongStream
        else
          match extractJsonU64 payload (ascii "\"seq\":") with
          | none => .error .invalidPubAck
          | some sequence =>
              .ok {
                stream := stream
                sequence := sequence
                duplicate := (extractJsonBool payload (ascii "\"duplicate\":")).getD false }

/-! ### `publish` -/

/-- Code of JetStream that runs on a client. -/
abbrev JetSession (α : Type) := Stateful JetStreamError Client α

/-- A call of the client. -/
def liftClient {α : Type} (code : Session α) : JetSession α := fun client =>
  match code client with
  | (.ok value, next) => (.ok value, next)
  | (.error err, next) => (.error (.client err), next)

namespace JetStream

variable (jetstream : JetStream) (envelope : Core.Envelope)

/-- The header lines that `publish` formats. -/
def headerLines : Bytes :=
  ascii "Nats-Msg-Id: " ++ envelope.idempotencyKey ++ ascii "\r\nNats-Expected-Stream: " ++
    jetstream.streamName

/-- `publish` up to the answer of the server. -/
def publishRequest (inbox sid wireBuffer : Bytes) (protocolBuffer : Nat) : JetSession Unit := do
  let encoded ← liftClient (liftWire (Core.Wire.encode envelope wireBuffer))
  let headers ← Stateful.ofExcept <|
    if (jetstream.headerLines envelope).length ≤ 1024 then .ok (jetstream.headerLines envelope)
    else .error .invalidPubAck
  liftClient (subscribe inbox sid protocolBuffer)
  liftClient (unsubscribeAfter sid 1 protocolBuffer)
  liftClient (publishHeaders envelope.event.name (some inbox) headers encoded.frame protocolBuffer)

/-- `publish`; the scratch buffer of `buffers` is its protocol buffer. -/
def publish (inbox sid wireBuffer : Bytes) (buffers : Buffers) : JetSession PubAck := do
  jetstream.publishRequest envelope inbox sid wireBuffer buffers.scratch
  let response ← liftClient (nextRaw buffers)
  Stateful.ofExcept (parsePubAck response.payload jetstream.streamName)

/-- `publish` sends the frame: behind the two commands for the inbox, it is all that the client has
written before it waits for the answer. -/
def Emits (inbox sid wireBuffer : Bytes) (protocolBuffer : Nat) (client : Client) (frame : Bytes) :
    Prop :=
  ∃ sub unsub sent, encodeSub protocolBuffer inbox sid = .ok sub ∧
    encodeUnsub protocolBuffer sid (some 1) = .ok unsub ∧
    jetstream.publishRequest envelope inbox sid wireBuffer protocolBuffer client = (.ok (), sent) ∧
    sent.output = client.output ++ (sub ++ unsub ++ frame)

/-- The call of `encodeHpub`. -/
def request (inbox : Bytes) : Request :=
  .hpub envelope.event.name (some inbox) (jetstream.headerLines envelope)
    (Core.Wire.frameWith 0 envelope)

/-- The inputs are valid and everything fits its buffer. -/
structure Room (inbox sid wireBuffer : Bytes) (protocolBuffer : Nat) : Prop where
  fits : Core.Wire.Fits envelope
  wire : Core.Wire.frameLength envelope ≤ wireBuffer.length
  headers : (jetstream.headerLines envelope).length ≤ 1024
  subject : IsField envelope.event.name
  reply : IsField inbox
  sub : (Request.sub inbox sid).bytes.length ≤ protocolBuffer
  unsub : (Request.unsub sid (some 1)).bytes.length ≤ protocolBuffer
  hpub : (jetstream.request envelope inbox).bytes.length ≤ protocolBuffer

end JetStream

/-! ## What is sent -/

section Calls

variable {α : Type} {client next : Client}

theorem liftClient_eq_ok_iff {code : Session α} {value : α} :
    liftClient code client = (.ok value, next) ↔ code client = (.ok value, next) := by
  unfold liftClient
  rcases code client with ⟨err | result, final⟩
  · constructor <;> intro h <;> cases h
  · constructor <;> intro h <;> cases h <;> rfl

/-- A command that is encoded is written. -/
theorem sendFrame_eq_ok_iff {encoded : Except ProtocolError Bytes} :
    (liftProtocol encoded >>= writeAll) client = (.ok (), next) ↔
      ∃ frame, encoded = .ok frame ∧ next = client.wrote frame := by
  cases encoded with
  | error err =>
      have hrun : (liftProtocol (.error err) >>= writeAll) client = (.error (.protocol err), client) :=
        bind_of_error rfl _
      rw [hrun]
      constructor
      · intro h
        cases h
      · rintro ⟨frame, hframe, -⟩
        cases hframe
  | ok frame =>
      have hrun : (liftProtocol (.ok frame) >>= writeAll) client = (.ok (), client.wrote frame) :=
        bind_of_ok rfl _
      rw [hrun]
      constructor
      · intro h
        cases h
        exact ⟨frame, rfl, rfl⟩
      · rintro ⟨other, hframe, rfl⟩
        cases hframe
        rfl

theorem liftWire_encode_eq_ok_iff {envelope : Core.Envelope} {wireBuffer : Bytes}
    {encoded : Core.Wire.Encoded} :
    liftWire (Core.Wire.encode envelope wireBuffer) client = (.ok encoded, next) ↔
      next = client ∧ Core.Wire.Fits envelope ∧
        Core.Wire.frameLength envelope ≤ wireBuffer.length ∧
        encoded = ⟨Core.Wire.frameWith 0 envelope ++
          wireBuffer.drop (Core.Wire.frameLength envelope), Core.Wire.frameWith 0 envelope⟩ := by
  by_cases hfits : Core.Wire.Fits envelope
  · rw [Core.Wire.encode_eq hfits]
    by_cases hroom : wireBuffer.length < Core.Wire.frameLength envelope
    · rw [if_pos hroom]
      constructor
      · intro h
        cases h
      · rintro ⟨-, -, hlarge, -⟩
        exact absurd hroom (not_lt.mpr hlarge)
    · rw [if_neg hroom]
      constructor
      · intro h
        cases h
        exact ⟨rfl, hfits, not_lt.mp hroom, rfl⟩
      · rintro ⟨rfl, -, -, rfl⟩
        rfl
  · rw [Core.Wire.encode_of_not_fits hfits]
    constructor
    · intro h
      cases h
    · rintro ⟨-, h, -⟩
      exact absurd h hfits

end Calls

namespace JetStream

variable {jetstream : JetStream} {envelope : Core.Envelope} {inbox sid wireBuffer : Bytes}
  {protocolBuffer : Nat} {client sent : Client}

theorem length_headerBlock_le (h : (jetstream.headerLines envelope).length ≤ 1024) :
    (headerBlock (jetstream.headerLines envelope)).length ≤ 2048 := by
  have hprelude : (ascii "NATS/1.0\r\n").length = 10 := by decide
  have hend : crlf.length = 2 := rfl
  simp only [headerBlock, List.length_append, hprelude, hend]
  omega

/-- **What `publish` sends**: three commands, if everything is valid and fits. -/
theorem publishRequest_eq_ok_iff :
    jetstream.publishRequest envelope inbox sid wireBuffer protocolBuffer client = (.ok (), sent) ↔
      jetstream.Room envelope inbox sid wireBuffer protocolBuffer ∧
        sent = client.wrote ((Request.sub inbox sid).bytes ++ (Request.unsub sid (some 1)).bytes ++
          (jetstream.request envelope inbox).bytes) := by
  unfold publishRequest
  constructor
  · intro h
    obtain ⟨encoded, first, hwire, h⟩ := bind_eq_ok.mp h
    obtain ⟨rfl, hfits, hroom, rfl⟩ := liftWire_encode_eq_ok_iff.mp (liftClient_eq_ok_iff.mp hwire)
    obtain ⟨headers, second, hheaders, h⟩ := bind_eq_ok.mp h
    obtain ⟨hheaders, rfl⟩ := ofExcept_eq_ok.mp hheaders
    split at hheaders
    · next hlines =>
        cases hheaders
        obtain ⟨_, third, hthird, h⟩ := bind_eq_ok.mp h
        obtain ⟨sub, hsub, rfl⟩ := sendFrame_eq_ok_iff.mp (liftClient_eq_ok_iff.mp hthird)
        obtain ⟨hreply, rfl, hsubRoom⟩ := encodeSub_eq_ok_iff.mp hsub
        obtain ⟨_, fourth, hfourth, h⟩ := bind_eq_ok.mp h
        obtain ⟨unsub, hunsub, rfl⟩ := sendFrame_eq_ok_iff.mp (liftClient_eq_ok_iff.mp hfourth)
        obtain ⟨rfl, hunsubRoom⟩ := encodeUnsub_eq_ok_iff.mp hunsub
        obtain ⟨hpub, hhpub, rfl⟩ := sendFrame_eq_ok_iff.mp (liftClient_eq_ok_iff.mp h)
        obtain ⟨hsubject, -, rfl, hhpubRoom⟩ := encodeHpub_eq_ok_iff.mp hhpub
        refine ⟨⟨hfits, hroom, hlines, hsubject, hreply, hsubRoom, hunsubRoom, hhpubRoom⟩, ?_⟩
        rw [Client.wrote_wrote, Client.wrote_wrote, ← List.append_assoc]
        rfl
    · cases hheaders
  · rintro ⟨hroom, rfl⟩
    refine bind_eq_ok.mpr ⟨_, client, liftClient_eq_ok_iff.mpr
      (liftWire_encode_eq_ok_iff.mpr ⟨rfl, hroom.fits, hroom.wire, rfl⟩), ?_⟩
    refine bind_eq_ok.mpr ⟨_, client, ofExcept_eq_ok.mpr ⟨if_pos hroom.headers, rfl⟩, ?_⟩
    refine bind_eq_ok.mpr ⟨(), _, liftClient_eq_ok_iff.mpr (sendFrame_eq_ok_iff.mpr
      ⟨_, encodeSub_eq_ok_iff.mpr ⟨hroom.reply, rfl, hroom.sub⟩, rfl⟩), ?_⟩
    refine bind_eq_ok.mpr ⟨(), _, liftClient_eq_ok_iff.mpr (sendFrame_eq_ok_iff.mpr
      ⟨_, encodeUnsub_eq_ok_iff.mpr ⟨rfl, hroom.unsub⟩, rfl⟩), ?_⟩
    refine liftClient_eq_ok_iff.mpr (sendFrame_eq_ok_iff.mpr ⟨_, encodeHpub_eq_ok_iff.mpr
      ⟨hroom.subject, length_headerBlock_le hroom.headers, rfl, hroom.hpub⟩, ?_⟩)
    rw [Client.wrote_wrote, Client.wrote_wrote, ← List.append_assoc]
    rfl

/-- **The frame that `publish` sends.** -/
theorem emits_iff {frame : Bytes} :
    jetstream.Emits envelope inbox sid wireBuffer protocolBuffer client frame ↔
      jetstream.Room envelope inbox sid wireBuffer protocolBuffer ∧
        frame = (jetstream.request envelope inbox).bytes := by
  constructor
  · rintro ⟨sub, unsub, sent, hsub, hunsub, hrequest, houtput⟩
    obtain ⟨hroom, rfl⟩ := publishRequest_eq_ok_iff.mp hrequest
    obtain ⟨-, rfl, -⟩ := encodeSub_eq_ok_iff.mp hsub
    obtain ⟨rfl, -⟩ := encodeUnsub_eq_ok_iff.mp hunsub
    refine ⟨hroom, ?_⟩
    have hsame := List.append_cancel_left houtput
    exact (List.append_cancel_left hsame).symm
  · rintro ⟨hroom, rfl⟩
    exact ⟨_, _, _, encodeSub_eq_ok_iff.mpr ⟨hroom.reply, rfl, hroom.sub⟩,
      encodeUnsub_eq_ok_iff.mpr ⟨rfl, hroom.unsub⟩, publishRequest_eq_ok_iff.mpr ⟨hroom, rfl⟩, rfl⟩

/-- The frame is one `HPUB` command with the encoded envelope as its payload. -/
theorem parseCommand_request (hroom : jetstream.Room envelope inbox sid wireBuffer protocolBuffer) :
    parseCommand (jetstream.request envelope inbox).bytes =
      some (.hpub envelope.event.name (some inbox) (headerBlock (jetstream.headerLines envelope))
        (Core.Wire.frameWith 0 envelope), []) := by
  have hwords : ∀ word ∈ (jetstream.request envelope inbox).words, IsArgument word := by
    refine Request.isArgument_words ?_ ?_
    · simpa [request, Request.subject?] using hroom.subject
    · simpa [request, Request.unchecked] using hroom.reply.isArgument
  exact parseCommand_bytes hwords

end JetStream

/-! ## The header block -/

namespace JetStream

variable (jetstream : JetStream) (envelope : Core.Envelope)

/-- The header block of the protocol: the prelude, the two header lines and a blank line. -/
def terminatedBlock : Bytes :=
  ascii "NATS/1.0\r\n" ++ ascii "Nats-Msg-Id: " ++ envelope.idempotencyKey ++ crlf ++
    ascii "Nats-Expected-Stream: " ++ jetstream.streamName ++ crlf ++ crlf

/-- The frame is a control line, as many bytes as its header length says that are the header block,
as many more as its total length says that are the encoded envelope, and a line end. -/
def WellFormed (inbox frame : Bytes) : Prop :=
  parseCommand frame = some (.hpub envelope.event.name (some inbox)
    (jetstream.terminatedBlock envelope) (Core.Wire.frameWith 0 envelope), [])

instance decidableWellFormed (inbox frame : Bytes) :
    Decidable (jetstream.WellFormed envelope inbox frame) :=
  inferInstanceAs (Decidable (_ = _))

/-- What `encodeHpub` prints lacks the blank line. -/
theorem terminatedBlock_eq :
    jetstream.terminatedBlock envelope = headerBlock (jetstream.headerLines envelope) ++ crlf := by
  have hlines : ascii "\r\nNats-Expected-Stream: " = crlf ++ ascii "Nats-Expected-Stream: " := by
    decide
  simp [terminatedBlock, headerBlock, headerLines, hlines]

/-- **The header block of a publication is never terminated.** The frame that `publish` sends is a
control line, as many bytes as its header length says, the encoded envelope up to the total length
and a line end; but the header block lacks the blank line at its end. -/
theorem not_wellFormed_of_emits (inbox sid wireBuffer : Bytes) (protocolBuffer : Nat)
    (client : Client) (frame : Bytes)
    (h : jetstream.Emits envelope inbox sid wireBuffer protocolBuffer client frame) :
    ¬jetstream.WellFormed envelope inbox frame ∧
      ∃ block, jetstream.terminatedBlock envelope = block ++ crlf ∧
        parseCommand frame = some (.hpub envelope.event.name (some inbox) block
          (Core.Wire.frameWith 0 envelope), []) := by
  obtain ⟨hroom, rfl⟩ := emits_iff.mp h
  have hparse := parseCommand_request hroom
  refine ⟨?_, _, terminatedBlock_eq jetstream envelope, hparse⟩
  intro hformed
  rw [WellFormed, hparse, terminatedBlock_eq, Option.some.injEq, Prod.mk.injEq,
    Command.hpub.injEq] at hformed
  have hlength := congrArg List.length hformed.1.2.2.1
  simp [crlf] at hlength

/-- The stream of the broker's events. -/
def ubiqEvents : JetStream where
  streamName := ascii "UBIQ_EVENTS"
  valid := by decide +kernel

/-- An inbox. -/
def inbox42 : Bytes := ascii "_INBOX.42"

/-- Everything that is needed to publish an envelope to the stream, with buffers of 256 and 512
bytes. -/
theorem room_ubiqEvents {envelope : Core.Envelope} (hfits : Core.Wire.Fits envelope)
    (hroom : Core.Wire.frameLength envelope ≤ 256 ∧
      (ubiqEvents.headerLines envelope).length ≤ 1024 ∧
      (ubiqEvents.request envelope inbox42).bytes.length ≤ 512)
    (hname : validateSubject envelope.event.name = .ok ()) :
    ubiqEvents.Room envelope inbox42 (ascii "1") (List.replicate 256 0) 512 where
  fits := hfits
  wire := hroom.1.trans_eq List.length_replicate.symm
  headers := hroom.2.1
  subject := validateSubject_eq_ok_iff.mp hname
  reply := validateSubject_eq_ok_iff.mp (by decide +kernel)
  sub := by decide +kernel
  unsub := by decide +kernel
  hpub := hroom.2.2

theorem room_invoice :
    ubiqEvents.Room (Core.Wire.invoice (ascii "data")) inbox42 (ascii "1") (List.replicate 256 0) 512 := by
  refine room_ubiqEvents ?_ ?_ ?_
  · unfold Core.Wire.Fits
    decide +kernel
  · decide +kernel
  · decide +kernel

theorem not_wellFormed_of_emits_invoice :
    ¬ubiqEvents.WellFormed (Core.Wire.invoice (ascii "data")) inbox42
      (ubiqEvents.request (Core.Wire.invoice (ascii "data")) inbox42).bytes :=
  (not_wellFormed_of_emits ubiqEvents _ inbox42 (ascii "1") (List.replicate 256 0) 512
    { capacity := 64, input := [] } _ (emits_iff.mpr ⟨room_invoice, rfl⟩)).1

/-- An invoice is published with a header block whose last line is not followed by a blank one. -/
theorem not_wellFormed_invoice :
    ubiqEvents.Emits (Core.Wire.invoice (ascii "data")) inbox42 (ascii "1") (List.replicate 256 0) 512
        { capacity := 64, input := [] }
        (ubiqEvents.request (Core.Wire.invoice (ascii "data")) inbox42).bytes ∧
      ¬ubiqEvents.WellFormed (Core.Wire.invoice (ascii "data")) inbox42
        (ubiqEvents.request (Core.Wire.invoice (ascii "data")) inbox42).bytes := by
  refine ⟨emits_iff.mpr ⟨room_invoice, rfl⟩, ?_⟩
  decide +kernel

/-! ## The headers of the block -/

/-- The lines of a header block behind its prelude, up to a blank line. -/
def blockLines (block : Bytes) : List Bytes :=
  (PairLines.split 13 10 ((Format.strip (ascii "NATS/1.0\r\n") block).getD [])).takeWhile
    fun line => line ≠ []

/-- The name and the value of a header line, which are parted by a colon and a space. -/
def header (line : Bytes) : Bytes × Bytes :=
  (PairLines.cut 58 32 line).getD (line, [])

/-- The headers of a frame. -/
def headersOf (frame : Bytes) : Option (List (Bytes × Bytes)) :=
  match parseCommand frame with
  | some (.hpub _ _ block _, _) => some ((blockLines block).map header)
  | _ => none

/-- The headers that `publish` means to send. -/
def headers : List (Bytes × Bytes) :=
  [(ascii "Nats-Msg-Id", envelope.idempotencyKey), (ascii "Nats-Expected-Stream", jetstream.streamName)]

theorem header_append {name : Bytes} (h : ¬PairLines.HasPair 58 32 name) (value : Bytes) :
    header (name ++ ascii ": " ++ value) = (name, value) := by
  have hcut := PairLines.cut_append (by decide) h value
  have hline : name ++ ascii ": " ++ value = name ++ 58 :: 32 :: value := by simp [ascii]
  rw [header, hline, hcut]
  rfl

/-- The value of a header has no line end if the line has none. -/
theorem not_hasPair_header {line : Bytes} (h : ¬PairLines.HasPair 13 10 line) :
    ¬PairLines.HasPair 13 10 (header line).2 := by
  unfold header
  cases hcut : PairLines.cut 58 32 line with
  | none => exact PairLines.not_hasPair_nil
  | some found =>
      obtain ⟨htext, -⟩ := PairLines.cut_eq_some hcut
      intro hpair
      refine h (hpair.of_infix ?_)
      rw [htext]
      exact ⟨found.1 ++ [58, 32], [], by simp⟩

theorem newline_not_mem_streamName : (10 : UInt8) ∉ jetstream.streamName := by
  have hvalid := jetstream.valid
  unfold validateAssetName at hvalid
  split at hvalid
  · cases hvalid
  · split at hvalid
    · cases hvalid
    · next hall =>
        intro hmem
        refine hall (List.any_eq_true.mpr ⟨10, hmem, ?_⟩)
        decide

/-- The header lines, cut where they should be. -/
theorem headerLines_eq :
    jetstream.headerLines envelope ++ crlf =
      (ascii "Nats-Msg-Id" ++ ascii ": " ++ envelope.idempotencyKey) ++ 13 :: 10 ::
        ((ascii "Nats-Expected-Stream" ++ ascii ": " ++ jetstream.streamName) ++ 13 :: 10 :: []) := by
  have hfirst : ascii "Nats-Msg-Id: " = ascii "Nats-Msg-Id" ++ ascii ": " := by decide
  have hsecond : ascii "\r\nNats-Expected-Stream: " =
      13 :: 10 :: (ascii "Nats-Expected-Stream" ++ ascii ": ") := by decide
  simp [headerLines, hfirst, hsecond, crlf]

theorem not_hasPair_line {name value : Bytes} (hname : ¬PairLines.HasPair 13 10 (name ++ [58]))
    (hvalue : ¬PairLines.HasPair 13 10 value) :
    ¬PairLines.HasPair 13 10 (name ++ ascii ": " ++ value) := by
  have hline : name ++ ascii ": " ++ value = (name ++ [58]) ++ 32 :: value := by simp [ascii]
  rw [hline, PairLines.hasPair_append_cons (by decide) (by decide)]
  exact not_or.mpr ⟨hname, hvalue⟩

theorem blockLines_headerBlock (hkey : ¬PairLines.HasPair 13 10 envelope.idempotencyKey) :
    blockLines (headerBlock (jetstream.headerLines envelope)) =
      [ascii "Nats-Msg-Id" ++ ascii ": " ++ envelope.idempotencyKey,
        ascii "Nats-Expected-Stream" ++ ascii ": " ++ jetstream.streamName] := by
  have hnames : ¬PairLines.HasPair 13 10 (ascii "Nats-Msg-Id" ++ [58]) ∧
      ¬PairLines.HasPair 13 10 (ascii "Nats-Expected-Stream" ++ [58]) := by decide +kernel
  have hfirst := not_hasPair_line hnames.1 hkey
  have hsecond := not_hasPair_line hnames.2
    (PairLines.not_hasPair_of_not_mem jetstream.newline_not_mem_streamName)
  rw [blockLines, headerBlock, List.append_assoc, Format.strip_append, Option.getD_some, headerLines_eq,
    PairLines.split_append (by decide) hfirst, PairLines.split_append (by decide) hsecond]
  simp [PairLines.split, ascii]

/-- **Which keys forge headers.** The frame that `publish` sends has exactly the two headers that
it means to send, with the key and the stream name as their values, exactly if the key has no line
end `\r\n`. -/
theorem faithful_iff (inbox sid wireBuffer : Bytes) (protocolBuffer : Nat) (client : Client)
    (frame : Bytes)
    (h : jetstream.Emits envelope inbox sid wireBuffer protocolBuffer client frame) :
    headersOf frame = some (jetstream.headers envelope) ↔
      ¬PairLines.HasPair 13 10 envelope.idempotencyKey := by
  obtain ⟨hroom, rfl⟩ := emits_iff.mp h
  have hheaders : headersOf (jetstream.request envelope inbox).bytes =
      some ((blockLines (headerBlock (jetstream.headerLines envelope))).map header) := by
    rw [headersOf, parseCommand_request hroom]
  rw [hheaders, Option.some.injEq]
  constructor
  · intro hsame
    -- the key is the value of a line, and no line has a line end in it
    have hmem : (ascii "Nats-Msg-Id", envelope.idempotencyKey) ∈
        (blockLines (headerBlock (jetstream.headerLines envelope))).map header := by
      rw [hsame]
      exact List.mem_cons_self
    obtain ⟨line, hline, heq⟩ := List.mem_map.mp hmem
    have hpiece := PairLines.not_hasPair_of_mem_split (List.takeWhile_subset _ hline)
    have hvalue := not_hasPair_header hpiece
    rwa [heq] at hvalue
  · intro hkey
    have hnames : ¬PairLines.HasPair 58 32 (ascii "Nats-Msg-Id") ∧
        ¬PairLines.HasPair 58 32 (ascii "Nats-Expected-Stream") := by decide +kernel
    rw [blockLines_headerBlock jetstream envelope hkey, List.map_cons, List.map_cons, List.map_nil,
      header_append hnames.1, header_append hnames.2]
    rfl

theorem faithful_invoice :
    headersOf (ubiqEvents.request (Core.Wire.invoice (ascii "data")) inbox42).bytes =
      some (ubiqEvents.headers (Core.Wire.invoice (ascii "data"))) :=
  (faithful_iff ubiqEvents _ inbox42 (ascii "1") (List.replicate 256 0) 512
    { capacity := 64, input := [] } _ (emits_iff.mpr ⟨room_invoice, rfl⟩)).mpr (by decide +kernel)

/-- An envelope whose idempotency key goes on behind a line end. -/
def rollup : Core.Envelope :=
  { Core.Wire.invoice (ascii "data") with idempotencyKey := ascii "k\r\nNats-Rollup: all" }

/-- The key of the envelope adds a header that tells the server to drop the messages of the stream. -/
theorem not_faithful_rollup :
    ubiqEvents.Emits rollup inbox42 (ascii "1") (List.replicate 256 0) 512
        { capacity := 64, input := [] } (ubiqEvents.request rollup inbox42).bytes ∧
      headersOf (ubiqEvents.request rollup inbox42).bytes ≠ some (ubiqEvents.headers rollup) ∧
      headersOf (ubiqEvents.request rollup inbox42).bytes =
        some [(ascii "Nats-Msg-Id", ascii "k"), (ascii "Nats-Rollup", ascii "all"),
          (ascii "Nats-Expected-Stream", ascii "UBIQ_EVENTS")] := by
  refine ⟨emits_iff.mpr ⟨room_ubiqEvents ?_ ?_ ?_, rfl⟩, ?_⟩
  · unfold Core.Wire.Fits
    decide +kernel
  · decide +kernel
  · decide +kernel
  · decide +kernel

end JetStream

end Ubiq.Nats
