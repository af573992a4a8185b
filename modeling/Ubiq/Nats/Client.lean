import Ubiq.Core.Wire
import Ubiq.Foundation.Stateful
import Ubiq.Nats.Protocol

/-!
# The NATS client

`Client` of `nats_client.zig`, on the bytes that the server has still to say and those that the
client has written. A line has to fit into the buffer of the reader; the messages are copied
into buffers of the caller, of which only the sizes matter.

`nextRaw` skips control lines and answers every `PING` on the way to the next message.
`nextRaw_stream` is about any number of calls on a stream of operations.
-/

namespace Ubiq.Nats

open Foundation
open Foundation.Stateful (bind_of_ok bind_of_error)

/-- The errors of `Client` that its receiving and publishing calls return; `safetyCheck` stands for
a failed safety check of the wire codec. -/
inductive ClientError
  | serverError
  | payloadTooLarge
  | replySubjectTooLarge
  | subjectTooLarge
  | invalidTrailer
  | streamTooLong
  | endOfStream
  | protocol (err : ProtocolError)
  | wire (err : Core.Wire.WireError)
  | safetyCheck
deriving DecidableEq, Repr

structure RawMessage where
  subject : Bytes
  replyTo : Bytes
  payload : Bytes
deriving DecidableEq, Repr

/-- `Client`: the size of the reader's buffer, what is left to read, and what was written. -/
structure Client where
  capacity : Nat
  input : Bytes
  output : Bytes := []
deriving DecidableEq, Repr

/-- The sizes of the caller's buffers; a size is a `usize`. -/
structure Buffers where
  payload : Nat
  subject : Nat
  reply : Nat
  scratch : Nat
  payload_lt : payload < 2 ^ 64

/-- Code that runs on a client and may fail; what was read and written stays so. -/
abbrev Session (α : Type) := ExceptT ClientError (StateM Client) α

/-- An error of the protocol. -/
def liftProtocol {α : Type} (result : Except ProtocolError α) : Session α :=
  match result with
  | .ok value => pure value
  | .error err => throw (.protocol err)

/-- `if (condition) return error`. -/
def failIf (condition : Prop) [Decidable condition] (err : ClientError) : Session Unit :=
  if condition then throw err else pure ()

def takeDelimiterInclusive (delimiter : UInt8) : Session Bytes := fun client =>
  match Format.readUntil delimiter client.input with
  | some (line, rest) =>
      if line.length + 1 > client.capacity then (.error .streamTooLong, client)
      else (.ok (line ++ [delimiter]), { client with input := rest })
  | none =>
      if client.input.length ≥ client.capacity then (.error .streamTooLong, client)
      else (.error .endOfStream, client)

/-- `readSliceAll` into a slice of the given length. -/
def readSliceAll (length : Nat) : Session Bytes := fun client =>
  if client.input.length < length then (.error .endOfStream, { client with input := [] })
  else (.ok (client.input.take length), { client with input := client.input.drop length })

/-- `writeAll` and `flush`. -/
def writeAll (bytes : Bytes) : Session Unit := fun client =>
  (.ok (), { client with output := client.output ++ bytes })

def consumeCrlf : Session Unit := do
  let trailer ← readSliceAll 2
  failIf (trailer ≠ crlf) .invalidTrailer

/-- The body of `copySubject` and `copyReply`. -/
def copyText (err : ClientError) (size : Nat) (value : Bytes) : Session Bytes := do
  failIf (value.length > size) err
  return value

def copySubject (size : Nat) (value : Bytes) : Session Bytes :=
  copyText .subjectTooLarge size value

def copyReply (size : Nat) (value : Bytes) : Session Bytes :=
  copyText .replySubjectTooLarge size value

def sendPong (scratch : Nat) : Session Unit := do
  let pong ← liftProtocol (encodePong scratch)
  writeAll pong

/-- The end of `readMsg` and `readHmsg`: the body and the line end behind it. -/
def readBody (operation : ServerMessage) (buffers : Buffers) (length : Nat) : Session RawMessage := do
  failIf (length > buffers.payload) .payloadTooLarge
  let subject ← copySubject buffers.subject operation.subject
  let reply ← copyReply buffers.reply operation.replyTo
  let body ← readSliceAll length
  consumeCrlf
  return { subject := subject, replyTo := reply, payload := body }

def readMsg (operation : ServerMessage) (buffers : Buffers) : Session RawMessage := do
  let payloadLen ← liftProtocol (payloadLength operation)
  readBody operation buffers payloadLen

/-- `readHmsg`; the header block is in front of the payload. -/
def readHmsg (operation : ServerMessage) (buffers : Buffers) : Session RawMessage := do
  let lengths ← liftProtocol (hmsgLengths operation)
  failIf (lengths.total < lengths.header) (.protocol .invalidMessage)
  let raw ← readBody operation buffers lengths.total
  return { raw with payload := (raw.payload.drop lengths.header).take (lengths.total - lengths.header) }

/-- The loop of `nextRaw`, with a bound on its rounds. -/
def nextRawLoop (buffers : Buffers) : Nat → Session RawMessage
  | 0 => throw .endOfStream
  | rounds + 1 => do
      let line ← takeDelimiterInclusive newline
      let operation ← liftProtocol (parseControlLine line)
      match operation.kind with
      | .ping => do
          sendPong buffers.scratch
          nextRawLoop buffers rounds
      | .info | .ok | .pong => nextRawLoop buffers rounds
      | .err => throw .serverError
      | .msg => readMsg operation buffers
      | .hmsg => readHmsg operation buffers

/-- `nextRaw`; every round of the loop takes a line, so there are fewer than bytes to read. -/
def nextRaw (buffers : Buffers) : Session RawMessage := fun client =>
  nextRawLoop buffers (client.input.length + 1) client

/-- `publishRaw`, with the size of its scratch buffer. -/
def publishRaw (subject : Bytes) (replyTo : Option Bytes) (payload : Bytes) (scratch : Nat) :
    Session Unit := do
  let frame ← liftProtocol (encodePub scratch subject replyTo payload)
  writeAll frame

/-- A result of the wire codec. -/
def liftWire {α : Type} (result : Core.Wire.Checked α) : Session α :=
  match result with
  | some (.ok value) => pure value
  | some (.error err) => throw (.wire err)
  | none => throw .safetyCheck

/-- `publishEnvelope`, with its wire buffer and the size of its protocol buffer. -/
def publishEnvelope (envelope : Core.Envelope) (wireBuffer : Bytes) (protocolBuffer : Nat) :
    Session Unit := do
  let encoded ← liftWire (Core.Wire.encode envelope wireBuffer)
  publishRaw envelope.event.name none encoded.frame protocolBuffer

def nextEnvelope (buffers : Buffers) : Session Core.Envelope := do
  let raw ← nextRaw buffers
  let envelope ← liftWire (Core.Wire.decode raw.payload)
  failIf (raw.subject ≠ envelope.event.name) (.wire .invalidFrame)
  return envelope

/-! ## Running a session -/

section Sessions

variable {client : Client}

theorem failIf_of_not {condition : Prop} [Decidable condition] (h : ¬condition) (err : ClientError) :
    failIf condition err client = (.ok (), client) := by
  rw [failIf, if_neg h]
  rfl

theorem copyText_of_le {size : Nat} {value : Bytes} (h : value.length ≤ size) (err : ClientError) :
    copyText err size value client = (.ok value, client) := by
  rw [copyText, bind_of_ok (failIf_of_not (Nat.not_lt.mpr h) err)]
  rfl

end Sessions

variable {client : Client} {buffers : Buffers} {delivery : Delivery} {header : Bytes}
  {operation : Operation} {controls : List Operation}

/-- The client when `rest` is left to read. -/
def Client.at (client : Client) (rest : Bytes) : Client :=
  { client with input := rest }

/-- The client when it has written one more text. -/
def Client.wrote (client : Client) (text : Bytes) : Client :=
  { client with output := client.output ++ text }

@[simp] theorem Client.wrote_nil (client : Client) : client.wrote [] = client := by
  simp [Client.wrote]

@[simp] theorem Client.wrote_wrote (client : Client) (first second : Bytes) :
    (client.wrote first).wrote second = client.wrote (first ++ second) := by
  simp [Client.wrote]

@[simp] theorem Client.at_input (client : Client) : client.at client.input = client := rfl

theorem readSliceAll_append (text rest : Bytes) :
    readSliceAll text.length (client.at (text ++ rest)) = (.ok text, client.at rest) := by
  unfold readSliceAll Client.at
  rw [if_neg (by rw [List.length_append]; omega), List.take_left, List.drop_left]

theorem consumeCrlf_append (rest : Bytes) :
    consumeCrlf (client.at (crlf ++ rest)) = (.ok (), client.at rest) := by
  have htrailer : readSliceAll 2 (client.at (crlf ++ rest)) = (.ok crlf, client.at rest) :=
    readSliceAll_append crlf rest
  rw [consumeCrlf, bind_of_ok htrailer]
  exact failIf_of_not (by simp) _

theorem takeDelimiterInclusive_of_readUntil {delimiter : UInt8} {line rest : Bytes}
    (hread : Format.readUntil delimiter client.input = some (line, rest))
    (hroom : line.length + 1 ≤ client.capacity) :
    takeDelimiterInclusive delimiter client = (.ok (line ++ [delimiter]), client.at rest) := by
  unfold takeDelimiterInclusive
  rw [hread]
  exact if_neg (Nat.not_lt.mpr hroom)

theorem takeDelimiterInclusive_line {text : Bytes} (hline : newline ∉ text)
    (hfits : text.length + 2 ≤ client.capacity) (rest : Bytes) :
    takeDelimiterInclusive newline (client.at (text ++ crlf ++ rest)) =
      (.ok (text ++ crlf), client.at rest) := by
  have hread : Format.readUntil newline (text ++ crlf ++ rest) = some (text ++ [13], rest) := by
    have hreturn : newline ∉ text ++ [13] := by
      rw [List.mem_append, List.mem_singleton]
      rintro (hmem | heq)
      · exact hline hmem
      · exact absurd heq (by decide)
    have hsplit : text ++ crlf ++ rest = (text ++ [13]) ++ newline :: rest := by
      simp [crlf, newline]
    rw [hsplit, Format.readUntil_append hreturn]
  have hroom : (text ++ [13]).length + 1 ≤ (client.at (text ++ crlf ++ rest)).capacity := by
    rw [List.length_append, List.length_singleton]
    exact hfits
  rw [takeDelimiterInclusive_of_readUntil hread hroom, List.append_assoc]
  rfl

theorem takeDelimiterInclusive_nil (client : Client) (delimiter : UInt8) :
    ∃ err, takeDelimiterInclusive delimiter (client.at []) = (.error err, client.at []) := by
  unfold takeDelimiterInclusive
  by_cases hroom : 0 ≥ client.capacity
  · exact ⟨.streamTooLong, if_pos hroom⟩
  · exact ⟨.endOfStream, if_neg hroom⟩

/-! ## One operation -/

namespace Delivery

/-- The message that the client returns. -/
def raw (delivery : Delivery) : RawMessage where
  subject := delivery.subject
  replyTo := delivery.replyTo.getD []
  payload := delivery.payload

/-- The delivery fits into the buffers of the caller. -/
structure Fits (buffers : Buffers) (delivery : Delivery) : Prop where
  subject : delivery.subject.length ≤ buffers.subject
  reply : (delivery.replyTo.getD []).length ≤ buffers.reply
  body : delivery.body.length ≤ buffers.payload

end Delivery

namespace Operation

/-- The operation fits into the reader and into the buffers of the caller. -/
structure Fits (capacity : Nat) (buffers : Buffers) (operation : Operation) : Prop where
  line : operation.controlText.length + 2 ≤ capacity
  pong : operation = .ping → 6 ≤ buffers.scratch
  delivery : ∀ delivery, operation = .deliver delivery → delivery.Fits buffers

/-- What the client writes. -/
def reply : Operation → Bytes
  | .ping => ascii "PONG" ++ crlf
  | _ => []

/-- The message of the operation. -/
def message? : Operation → Option RawMessage
  | .deliver delivery => some delivery.raw
  | _ => none

end Operation

theorem readBody_body (hfits : delivery.Fits buffers) (rest : Bytes) :
    readBody delivery.parsed buffers delivery.body.length
        (client.at (delivery.body ++ crlf ++ rest)) =
      (.ok { delivery.raw with payload := delivery.body }, client.at rest) := by
  have hsubject : copySubject buffers.subject delivery.parsed.subject
      (client.at (delivery.body ++ crlf ++ rest)) =
        (.ok delivery.subject, client.at (delivery.body ++ crlf ++ rest)) :=
    copyText_of_le hfits.subject _
  have hreply : copyReply buffers.reply delivery.parsed.replyTo
      (client.at (delivery.body ++ crlf ++ rest)) =
        (.ok (delivery.replyTo.getD []), client.at (delivery.body ++ crlf ++ rest)) :=
    copyText_of_le hfits.reply _
  have hbody : readSliceAll delivery.body.length (client.at (delivery.body ++ crlf ++ rest)) =
      (.ok delivery.body, client.at (crlf ++ rest)) := by
    rw [List.append_assoc]
    exact readSliceAll_append _ _
  rw [readBody, bind_of_ok (failIf_of_not (Nat.not_lt.mpr hfits.body) _), bind_of_ok hsubject,
    bind_of_ok hreply, bind_of_ok hbody, bind_of_ok (consumeCrlf_append rest)]
  rfl

theorem payloadLength_parsed (hsize : delivery.body.length < 2 ^ 64)
    (hheaders : delivery.headers = none) :
    payloadLength delivery.parsed = .ok delivery.body.length := by
  rw [payloadLength, if_neg (by simp [Delivery.parsed, hheaders])]
  exact parseUsize_digits hsize

theorem hmsgLengths_parsed (hsize : delivery.body.length < 2 ^ 64)
    (hheaders : delivery.headers = some header) :
    hmsgLengths delivery.parsed = .ok { header := header.length, total := delivery.body.length } := by
  have hheader := parseUsize_digits (Delivery.length_body_lt hsize hheaders)
  rw [hmsgLengths, if_neg (by simp [Delivery.parsed, hheaders])]
  simp [Delivery.parsed, hheaders, hheader, parseUsize_digits hsize, bind, Except.bind, pure,
    Except.pure]

/-- The header block is a part of the body. -/
theorem Delivery.header_le (hheaders : delivery.headers = some header) :
    ¬delivery.body.length < header.length := by
  simp only [Delivery.body, hheaders, Option.getD_some, List.length_append]
  omega

theorem readMsg_body (hfits : delivery.Fits buffers) (hheaders : delivery.headers = none)
    (rest : Bytes) :
    readMsg delivery.parsed buffers (client.at (delivery.body ++ crlf ++ rest)) =
      (.ok delivery.raw, client.at rest) := by
  have hlength := payloadLength_parsed (hfits.body.trans_lt buffers.payload_lt) hheaders
  have hbody : delivery.body = delivery.payload := by simp [Delivery.body, hheaders]
  rw [readMsg, hlength]
  refine (bind_of_ok rfl _).trans ?_
  rw [readBody_body hfits rest, hbody]
  rfl

theorem readHmsg_body (hfits : delivery.Fits buffers) (hheaders : delivery.headers = some header)
    (rest : Bytes) :
    readHmsg delivery.parsed buffers (client.at (delivery.body ++ crlf ++ rest)) =
      (.ok delivery.raw, client.at rest) := by
  have hbody : delivery.body = header ++ delivery.payload := by simp [Delivery.body, hheaders]
  have hlengths := hmsgLengths_parsed (hfits.body.trans_lt buffers.payload_lt) hheaders
  have horder := Delivery.header_le hheaders
  have hpayload : (delivery.body.drop header.length).take (delivery.body.length - header.length) =
      delivery.payload := by
    rw [hbody, List.drop_left, List.length_append, Nat.add_sub_cancel_left, List.take_length]
  rw [readHmsg, hlengths]
  refine (bind_of_ok rfl _).trans ?_
  rw [bind_of_ok (failIf_of_not horder _), bind_of_ok (readBody_body hfits rest)]
  simp only [hpayload]
  rfl

theorem sendPong_of_le {scratch : Nat} (h : 6 ≤ scratch) (rest : Bytes) :
    sendPong scratch (client.at rest) = (.ok (), (client.wrote (ascii "PONG" ++ crlf)).at rest) := by
  have hpong : encodePong scratch = .ok (ascii "PONG" ++ crlf) := if_neg (Nat.not_lt.mpr h)
  rw [sendPong, hpong]
  rfl

/-- **Step lemma.** One round of the loop reads one operation. -/
theorem nextRawLoop_operation (h : operation.WellFormed)
    (hfits : operation.Fits client.capacity buffers) (rounds : Nat) (rest : Bytes) :
    nextRawLoop buffers (rounds + 1) (client.at (operation.bytes ++ rest)) =
      match operation.message? with
      | some raw => (.ok raw, client.at rest)
      | none => nextRawLoop buffers rounds ((client.wrote operation.reply).at rest) := by
  have hparsed := parseControlLine_line h fun delivery heq =>
    (hfits.delivery delivery heq).body.trans_lt buffers.payload_lt
  have hline : takeDelimiterInclusive newline (client.at (operation.bytes ++ rest)) =
      (.ok (operation.controlText ++ crlf), client.at (operation.trailer ++ rest)) := by
    rw [Operation.bytes, List.append_assoc _ operation.trailer]
    exact takeDelimiterInclusive_line h.newline_not_mem hfits.line _
  rw [nextRawLoop, bind_of_ok hline, hparsed]
  refine (bind_of_ok rfl _).trans ?_
  have hquiet : nextRawLoop buffers rounds (client.at rest) =
      nextRawLoop buffers rounds ((client.wrote []).at rest) := by rw [Client.wrote_nil]
  cases operation with
  | ping => exact bind_of_ok (sendPong_of_le (hfits.pong rfl) rest) _
  | pong => exact hquiet
  | ok => exact hquiet
  | info text => exact hquiet
  | deliver delivery =>
      have hdelivery := hfits.delivery delivery rfl
      cases hheaders : delivery.headers with
      | none =>
          have hkind : (Operation.deliver delivery).parsed.kind = .msg := by
            simp [Operation.parsed, Delivery.parsed, hheaders]
          rw [hkind]
          exact readMsg_body hdelivery hheaders rest
      | some header =>
          have hkind : (Operation.deliver delivery).parsed.kind = .hmsg := by
            simp [Operation.parsed, Delivery.parsed, hheaders]
          rw [hkind]
          exact readHmsg_body hdelivery hheaders rest

/-! ## Streams -/

/-- The bytes of a stream of operations. -/
def stream (operations : List Operation) : Bytes :=
  operations.flatMap Operation.bytes

/-- The messages of a stream. -/
def messages (operations : List Operation) : List RawMessage :=
  operations.filterMap Operation.message?

/-- The answers to a stream: one `PONG` for every `PING`. -/
def pongs (operations : List Operation) : Bytes :=
  operations.flatMap Operation.reply

/-- Successive calls of `nextRaw`. -/
def calls (buffers : Buffers) : Nat → Client → List (Except ClientError RawMessage) × Client
  | 0, client => ([], client)
  | n + 1, client =>
      let first := nextRaw buffers client
      let later := calls buffers n first.2
      (first.1 :: later.1, later.2)

/-- The stream is empty or ends with a message. -/
def EndsWithMessage (operations : List Operation) : Prop :=
  ∀ last ∈ operations.getLast?, last.message?.isSome

/-- The client behind operations that it has passed over. -/
theorem nextRawLoop_controls (hcontrols : messages controls = [])
    (h : ∀ operation ∈ controls, operation.WellFormed)
    (hfits : ∀ operation ∈ controls, operation.Fits client.capacity buffers) (rounds : Nat)
    (rest : Bytes) :
    nextRawLoop buffers (rounds + controls.length) (client.at (stream controls ++ rest)) =
      nextRawLoop buffers rounds ((client.wrote (pongs controls)).at rest) := by
  induction controls generalizing client with
  | nil => simp [stream, pongs]
  | cons operation later ih =>
      obtain ⟨hfirst, hlater⟩ := List.forall_mem_cons.mp h
      obtain ⟨hfirstFits, hlaterFits⟩ := List.forall_mem_cons.mp hfits
      have hquiet : operation.message? = none := by
        by_contra hsome
        obtain ⟨raw, hraw⟩ := Option.ne_none_iff_exists'.mp hsome
        simp [messages, hraw] at hcontrols
      have hrest : messages later = [] := by simpa [messages, hquiet] using hcontrols
      have hstep := nextRawLoop_operation hfirst hfirstFits (rounds + later.length)
        (stream later ++ rest)
      rw [hquiet] at hstep
      have hlaterRun : nextRawLoop buffers (rounds + later.length)
          ((client.wrote operation.reply).at (stream later ++ rest)) = _ := ih hrest hlater hlaterFits
      have hsplit : stream (operation :: later) ++ rest = operation.bytes ++ (stream later ++ rest) := by
        simp [stream]
      rw [List.length_cons, ← Nat.add_assoc, hsplit, hstep]
      dsimp only
      rw [hlaterRun, Client.wrote_wrote, pongs, pongs, List.flatMap_cons]

theorem length_le_length_stream (operations : List Operation) :
    operations.length ≤ (stream operations).length := by
  induction operations with
  | nil => simp
  | cons operation later ih =>
      have hbytes : operation.bytes.length ≥ 1 := by
        simp only [Operation.bytes, crlf, List.length_append, List.length_cons]
        omega
      rw [stream, List.flatMap_cons, List.length_append, List.length_cons]
      rw [stream] at ih
      omega

/-- `nextRaw` gives the loop more rounds than there are operations. -/
theorem nextRaw_stream_append (hcontrols : messages controls = [])
    (h : ∀ operation ∈ controls, operation.WellFormed)
    (hfits : ∀ operation ∈ controls, operation.Fits client.capacity buffers) (rest : Bytes) :
    ∃ extra, nextRaw buffers (client.at (stream controls ++ rest)) =
      nextRawLoop buffers (extra + 1) ((client.wrote (pongs controls)).at rest) := by
  have hrounds : (stream controls ++ rest).length + 1 =
      ((stream controls ++ rest).length - controls.length + 1) + controls.length := by
    have hlength := length_le_length_stream controls
    rw [List.length_append]
    omega
  refine ⟨(stream controls ++ rest).length - controls.length, ?_⟩
  show nextRawLoop buffers ((stream controls ++ rest).length + 1) _ = _
  rw [hrounds, nextRawLoop_controls hcontrols h hfits]

theorem nextRaw_message {raw : RawMessage} (hcontrols : messages controls = [])
    (hmessage : operation.message? = some raw)
    (h : ∀ other ∈ controls ++ [operation], other.WellFormed)
    (hfits : ∀ other ∈ controls ++ [operation], other.Fits client.capacity buffers) (rest : Bytes) :
    nextRaw buffers (client.at (stream controls ++ (operation.bytes ++ rest))) =
      (.ok raw, (client.wrote (pongs controls)).at rest) := by
  obtain ⟨hbefore, hlast⟩ := List.forall_mem_append.mp h
  obtain ⟨hbeforeFits, hlastFits⟩ := List.forall_mem_append.mp hfits
  obtain ⟨extra, hrun⟩ := nextRaw_stream_append hcontrols hbefore hbeforeFits (operation.bytes ++ rest)
  have hfitsLast : operation.Fits (client.wrote (pongs controls)).capacity buffers :=
    hlastFits operation List.mem_cons_self
  have hstep := nextRawLoop_operation (hlast operation List.mem_cons_self) hfitsLast extra rest
  rw [hmessage] at hstep
  exact hrun.trans hstep

/-- After the last message `nextRaw` answers what is left and fails. -/
theorem nextRaw_no_message (hcontrols : messages controls = [])
    (h : ∀ operation ∈ controls, operation.WellFormed)
    (hfits : ∀ operation ∈ controls, operation.Fits client.capacity buffers) :
    ∃ err, nextRaw buffers (client.at (stream controls)) =
      (.error err, (client.wrote (pongs controls)).at []) := by
  obtain ⟨extra, hrun⟩ := nextRaw_stream_append hcontrols h hfits []
  rw [List.append_nil] at hrun
  obtain ⟨err, hline⟩ := takeDelimiterInclusive_nil (client.wrote (pongs controls)) newline
  rw [hrun, nextRawLoop]
  exact ⟨err, bind_of_error hline _⟩

theorem exists_first_message {operations : List Operation} {raw : RawMessage}
    {later : List RawMessage} (h : messages operations = raw :: later) :
    ∃ controls operation rest, operations = controls ++ operation :: rest ∧
      messages controls = [] ∧ operation.message? = some raw ∧ messages rest = later := by
  induction operations with
  | nil => cases h
  | cons first others ih =>
      cases hfirst : first.message? with
      | some found =>
          simp only [messages, List.filterMap_cons, hfirst, List.cons.injEq] at h
          exact ⟨[], first, others, rfl, rfl, hfirst.trans (congrArg some h.1), h.2⟩
      | none =>
          have hothers : messages others = raw :: later := by simpa [messages, hfirst] using h
          obtain ⟨controls, operation, rest, heq, hcontrols, hmessage, hrest⟩ := ih hothers
          refine ⟨first :: controls, operation, rest, by rw [heq, List.cons_append], ?_, hmessage, hrest⟩
          simpa [messages, hfirst] using hcontrols

theorem EndsWithMessage.eq_nil {operations : List Operation} (h : EndsWithMessage operations)
    (hnone : messages operations = []) : operations = [] := by
  by_contra hne
  have hlast := h _ (List.getLast?_eq_some_getLast hne)
  have hmem := List.getLast_mem hne
  have hquiet := List.filterMap_eq_nil_iff.mp hnone _ hmem
  rw [hquiet] at hlast
  cases hlast

theorem EndsWithMessage.of_append {rest : List Operation}
    (h : EndsWithMessage (controls ++ operation :: rest)) : EndsWithMessage rest := by
  intro last hlast
  refine h last ?_
  cases rest with
  | nil => cases hlast
  | cons next more => simpa using hlast

/-- **Run lemma.** As many calls as there are messages return these, and leave the client at
the operation behind the last of them. -/
theorem calls_stream {passed : List Operation} (hend : EndsWithMessage passed)
    (h : ∀ operation ∈ passed, operation.WellFormed)
    (hfits : ∀ operation ∈ passed, operation.Fits client.capacity buffers) (rest : Bytes) :
    calls buffers (messages passed).length (client.at (stream passed ++ rest)) =
      ((messages passed).map .ok, (client.wrote (pongs passed)).at rest) := by
  generalize hmessages : messages passed = expected
  -- induction on the messages that are still to come
  induction expected generalizing passed client with
  | nil =>
      rw [hend.eq_nil hmessages]
      simp [calls, stream, pongs]
  | cons raw later ih =>
      obtain ⟨controls, operation, others, rfl, hcontrols, hmessage, hothers⟩ :=
        exists_first_message hmessages
      have hsplit : stream (controls ++ operation :: others) ++ rest =
          stream controls ++ (operation.bytes ++ (stream others ++ rest)) := by simp [stream]
      have hfront : ∀ other ∈ controls ++ [operation], other ∈ controls ++ operation :: others := by
        intro other hmem
        rw [List.mem_append, List.mem_singleton] at hmem
        rw [List.mem_append, List.mem_cons]
        exact hmem.imp_right Or.inl
      have hback : ∀ other ∈ others, other ∈ controls ++ operation :: others := fun other hmem =>
        List.mem_append_right _ (List.mem_cons_of_mem _ hmem)
      have hfirst := nextRaw_message hcontrols hmessage (fun other hmem => h other (hfront other hmem))
        (fun other hmem => hfits other (hfront other hmem)) (stream others ++ rest)
      have hlater : calls buffers later.length
          ((client.wrote (pongs controls)).at (stream others ++ rest)) = _ :=
        ih hend.of_append (fun other hmem => h other (hback other hmem))
          (fun other hmem => hfits other (hback other hmem)) hothers
      have hreply : operation.reply = [] := by
        cases operation <;> simp_all [Operation.message?, Operation.reply]
      rw [List.length_cons, calls, hsplit, hfirst]
      dsimp only
      rw [hlater]
      simp [pongs, hreply]

/-- **Stream framing.** On a stream of well-formed operations that fit the reader and the
buffers, cut anywhere behind a message: as many calls of `nextRaw` as there are messages before
the cut return exactly these and leave the reader at the cut, with one `PONG` written for every
`PING` before it. If no message is left, the next call answers the rest of the stream. -/
theorem nextRaw_stream (buffers : Buffers) (client : Client) (passed remaining : List Operation)
    (hstream : client.input = stream (passed ++ remaining)) (hend : EndsWithMessage passed)
    (h : ∀ operation ∈ passed ++ remaining, operation.WellFormed)
    (hfits : ∀ operation ∈ passed ++ remaining, operation.Fits client.capacity buffers) :
    calls buffers (messages passed).length client =
        ((messages passed).map .ok,
          { client with input := stream remaining, output := client.output ++ pongs passed }) ∧
      (messages remaining = [] →
        ∃ err, nextRaw buffers
            { client with input := stream remaining, output := client.output ++ pongs passed } =
          (.error err,
            { client with input := [], output := client.output ++ pongs (passed ++ remaining) })) := by
  obtain ⟨hpassed, hremaining⟩ := List.forall_mem_append.mp h
  obtain ⟨hpassedFits, hremainingFits⟩ := List.forall_mem_append.mp hfits
  constructor
  · have hrun := calls_stream hend hpassed hpassedFits (stream remaining)
    have hinput : stream passed ++ stream remaining = client.input := by
      rw [hstream, stream, stream, stream, List.flatMap_append]
    rwa [hinput, Client.at_input] at hrun
  · intro hnone
    have hfitsRest : ∀ operation ∈ remaining,
        operation.Fits (client.wrote (pongs passed)).capacity buffers := hremainingFits
    obtain ⟨err, hrun⟩ := nextRaw_no_message hnone hremaining hfitsRest
    rw [Client.wrote_wrote, pongs, pongs, ← List.flatMap_append] at hrun
    exact ⟨err, hrun⟩

/-- A message whose payload looks like a protocol line. -/
def pingPayload : Delivery where
  subject := ascii "Financial.createInvoice.ok"
  sid := ascii "7"
  replyTo := none
  headers := none
  payload := ascii "\r\nPING\r\n"

/-- Buffers for short messages. -/
def shortBuffers : Buffers where
  payload := 64
  subject := 64
  reply := 64
  scratch := 16
  payload_lt := by decide

theorem nextRaw_stream_pingPayload :
    calls shortBuffers 1
        { capacity := 64, input := stream [.ping, .deliver pingPayload, .ping] } =
      ([.ok pingPayload.raw],
        { capacity := 64, input := stream [.ping], output := ascii "PONG\r\n" }) := by
  have hformed : pingPayload.WellFormed := by
    refine ⟨?_, ?_, ?_⟩
    · unfold IsField
      decide +kernel
    · unfold IsField
      decide +kernel
    · intro reply hreply
      cases hreply
  have hdelivery : pingPayload.Fits shortBuffers := ⟨by decide, by decide, by decide⟩
  have hping : Operation.ping.Fits 64 shortBuffers := ⟨by decide, fun _ => by decide, by simp⟩
  have hdeliver : (Operation.deliver pingPayload).Fits 64 shortBuffers :=
    ⟨by decide, by simp, by simpa using hdelivery⟩
  exact (nextRaw_stream shortBuffers _ [.ping, .deliver pingPayload] [.ping] rfl
    (by simp [EndsWithMessage, Operation.message?]) (by simp [Operation.WellFormed, hformed])
    (by simp [hping, hdeliver])).1

end Ubiq.Nats
