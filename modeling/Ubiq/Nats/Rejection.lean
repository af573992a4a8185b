import Ubiq.Foundation.Execution
import Ubiq.Nats.Client

/-!
# Messages that the client rejects

A message that is too large for the buffers of a call is rejected when its control line has been
read and its body has not. The body stays in the stream, and the following calls read it line by
line as what the server has to say.

`Synced` describes where the reader may be: in front of lines that are no messages, which are left
of a rejected body, and behind these at an operation of the server. It is kept by every call
whose buffers hold every message, or reject only those whose body has no line that announces a
message. `returned_sublist` is about any number of such calls.
-/

namespace Ubiq.Nats

open Foundation
open Foundation.Stateful (bind_of_ok bind_of_error)

/-! ## What a server sends -/

/-- An operation, or the report of an error. -/
inductive Frame
  | regular (operation : Operation)
  | err (text : Bytes)
deriving DecidableEq, Repr

namespace Frame

/-- The bytes of a frame. -/
def bytes : Frame → Bytes
  | .regular operation => operation.bytes
  | .err text => ascii "-ERR " ++ text ++ crlf

/-- A report of an error is one line. -/
def WellFormed : Frame → Prop
  | .regular operation => operation.WellFormed
  | .err text => newline ∉ text

/-- The message of a frame. -/
def message? : Frame → Option RawMessage
  | .regular operation => operation.message?
  | .err _ => none

end Frame

/-- The bytes of what a server sends. -/
def frameStream (frames : List Frame) : Bytes :=
  frames.flatMap Frame.bytes

/-- The messages that a server frames. -/
def framed (frames : List Frame) : List RawMessage :=
  frames.filterMap Frame.message?

/-! ## Calls -/

/-- One call of `nextRaw`. -/
def receive (client : Client) (buffers : Buffers) : Client × Except ClientError RawMessage :=
  let outcome := nextRaw buffers client
  (outcome.2, outcome.1)

/-- The messages that successive calls return. -/
def returned (client : Client) (calls : List Buffers) : List RawMessage :=
  (Execution.trace receive client calls).filterMap fun call => call.2.toOption

theorem returned_cons (client : Client) (buffers : Buffers) (calls : List Buffers) :
    returned client (buffers :: calls) =
      (receive client buffers).2.toOption.toList ++ returned (receive client buffers).1 calls := by
  unfold returned
  rw [Execution.trace_cons, List.filterMap_cons]
  cases hmessage : (receive client buffers).2.toOption <;> rfl

/-! ## Lines that are no messages -/

/-- A line that does not announce a message. -/
def Quiet (line : Bytes) : Prop :=
  ∀ message, parseControlLine (line ++ [newline]) = .ok message →
    message.kind ≠ .msg ∧ message.kind ≠ .hmsg

/-- No line of the body, the line end behind it included, announces a message. -/
def Delivery.Harmless (delivery : Delivery) : Prop :=
  ∀ line ∈ Lines.completeLines newline (delivery.body ++ crlf), Quiet line

/-- Lines that announce no message. -/
structure Noise (text : Bytes) : Prop where
  clean : Lines.Clean newline text
  quiet : ∀ line ∈ Lines.completeLines newline text, Quiet line

theorem noise_nil : Noise [] where
  clean := rfl
  quiet := by simp

variable {delivery : Delivery} {client : Client} {buffers : Buffers} {line rest text : Bytes}
  {frames : List Frame} {rounds : Nat}

/-- The body of a harmless message is noise. -/
theorem Delivery.Harmless.noise (h : delivery.Harmless) :
    Noise (delivery.body ++ crlf) where
  clean := by
    have hsplit : delivery.body ++ crlf = (delivery.body ++ [13]) ++ [newline] := by
      simp [crlf, newline]
    rw [hsplit]
    exact Lines.clean_concat_stop newline _
  quiet := h

/-! ## One line -/

theorem takeDelimiterInclusive_of_lt
    (hread : Format.readUntil newline client.input = some (line, rest))
    (hlong : client.capacity < line.length + 1) :
    takeDelimiterInclusive newline client = (.error .streamTooLong, client) := by
  unfold takeDelimiterInclusive
  rw [hread]
  exact if_pos hlong

/-- A line is taken if it fits the reader, and else nothing is. -/
theorem takeDelimiterInclusive_cases (hline : newline ∉ line) (rest : Bytes) :
    takeDelimiterInclusive newline (client.at (line ++ newline :: rest)) =
        (.ok (line ++ [newline]), client.at rest) ∨
      takeDelimiterInclusive newline (client.at (line ++ newline :: rest)) =
        (.error .streamTooLong, client.at (line ++ newline :: rest)) := by
  have hread : Format.readUntil newline (client.at (line ++ newline :: rest)).input =
      some (line, rest) := Format.readUntil_append hline rest
  by_cases hroom : line.length + 1 ≤ client.capacity
  · exact Or.inl (takeDelimiterInclusive_of_readUntil hread hroom)
  · exact Or.inr (takeDelimiterInclusive_of_lt hread (not_le.mp hroom))

theorem sendPong_cases (scratch : Nat) (client : Client) :
    (∃ text, sendPong scratch client = (.ok (), client.wrote text)) ∨
      ∃ err, sendPong scratch client = (.error err, client) := by
  unfold sendPong
  cases encodePong scratch with
  | error err => exact Or.inr ⟨.protocol err, bind_of_error rfl _⟩
  | ok pong => exact Or.inl ⟨pong, bind_of_ok rfl _⟩

/-! ## Where the reader may be -/

/-- The reader stands in front of noise and of the frames that are left. -/
def Synced (client : Client) (frames : List Frame) : Prop :=
  ∃ noise, Noise noise ∧ client.input = noise ++ frameStream frames

/-- What a call may do on the frames: it passes over some of them, may return a message of these, and
is synced with the rest. -/
def Follows (frames : List Frame) (outcome : Except ClientError RawMessage × Client) : Prop :=
  ∃ passed rest, frames = passed ++ rest ∧ Synced outcome.2 rest ∧
    outcome.1.toOption.toList.Sublist (framed passed)

theorem synced_stream (client : Client) (frames : List Frame) :
    Synced (client.at (frameStream frames)) frames :=
  ⟨[], noise_nil, rfl⟩

theorem Synced.wrote (h : Synced (client.at rest) frames) (text : Bytes) :
    Synced ((client.wrote text).at rest) frames := h

/-- A call that fails may leave the reader where it is synced. -/
theorem follows_error (h : Synced client frames) (err : ClientError) :
    Follows frames (.error err, client) :=
  ⟨[], frames, rfl, h, List.nil_sublist _⟩

theorem Follows.cons {outcome : Except ClientError RawMessage × Client} (h : Follows frames outcome)
    (frame : Frame) : Follows (frame :: frames) outcome := by
  obtain ⟨passed, rest, rfl, hsynced, hmessage⟩ := h
  refine ⟨frame :: passed, rest, rfl, hsynced, ?_⟩
  exact hmessage.trans ((List.sublist_cons_self frame passed).filterMap Frame.message?)

/-- A round on a line that announces no message fails in front of the line or behind it, or goes on
behind it. -/
theorem follows_quiet (hline : newline ∉ line) (hquiet : Quiet line)
    (hfront : Synced (client.at (line ++ newline :: rest)) frames)
    (hbehind : ∀ err, Follows frames (.error err, client.at rest))
    (hgo : ∀ text, Follows frames (nextRawLoop buffers rounds ((client.wrote text).at rest))) :
    Follows frames (nextRawLoop buffers (rounds + 1) (client.at (line ++ newline :: rest))) := by
  have hstay := hgo []
  rw [Client.wrote_nil] at hstay
  rw [nextRawLoop]
  rcases takeDelimiterInclusive_cases hline rest with htaken | hlong
  · rw [bind_of_ok htaken]
    cases hparse : parseControlLine (line ++ [newline]) with
    | error err =>
        have hlift : (liftProtocol (.error err) : Session ServerMessage) (client.at rest) =
          (.error (.protocol err), client.at rest) := rfl
        rw [bind_of_error hlift]
        exact hbehind _
    | ok message =>
        obtain ⟨hmsg, hhmsg⟩ := hquiet message hparse
        have hlift : (liftProtocol (.ok message) : Session ServerMessage) (client.at rest) =
          (.ok message, client.at rest) := rfl
        rw [bind_of_ok hlift]
        cases hkind : message.kind with
        | msg => exact absurd hkind hmsg
        | hmsg => exact absurd hkind hhmsg
        | info => exact hstay
        | ok => exact hstay
        | pong => exact hstay
        | err => exact hbehind .serverError
        | ping =>
            dsimp only
            rcases sendPong_cases buffers.scratch (client.at rest) with ⟨text, hsent⟩ | ⟨err, hfailed⟩
            · rw [bind_of_ok hsent]
              exact hgo text
            · rw [bind_of_error hfailed]
              exact hbehind err
  · -- the line does not fit the reader, and it stays in front of it
    rw [bind_of_error hlong]
    exact follows_error hfront _

/-! ## One frame -/

/-- The line of a frame that is no message. -/
theorem quiet_of_parse {message : ServerMessage} (h : parseControlLine (text ++ crlf) = .ok message)
    (hmsg : message.kind ≠ .msg) (hhmsg : message.kind ≠ .hmsg) : Quiet (text ++ [13]) := by
  intro other hother
  have hsplit : text ++ [13] ++ [newline] = text ++ crlf := by simp [crlf, newline]
  rw [hsplit, h] at hother
  cases hother
  exact ⟨hmsg, hhmsg⟩

theorem newline_not_mem_return (h : newline ∉ text) : newline ∉ text ++ [13] := by
  rw [List.mem_append, List.mem_singleton]
  rintro (hmem | heq)
  · exact h hmem
  · exact absurd heq (by decide)

theorem parseControlLine_err (text : Bytes) :
    parseControlLine (ascii "-ERR " ++ text ++ crlf) =
      .ok { kind := .err, infoOrError := Text.trimEnd crlf (text ++ crlf) } := by
  have hne : ascii "-ERR " ≠ [] := by decide
  have hplain : ∀ byte ∈ ascii "-ERR ", byte ∉ crlf := by decide +kernel
  unfold parseControlLine
  rw [List.append_assoc, Text.trimEnd_append hne (hplain _ (List.getLast_mem hne))]
  rfl

theorem parseUsize_digits_of_le {value : Nat} (h : 2 ^ 64 ≤ value) :
    parseUsize (Numeral.digits 10 value) = .error .invalidLength := by
  rw [parseUsize, Numeral.parseInt_digits_of_le (by decide) (by decide) h]

/-- The control line of a message that is too long for a `usize` is refused. -/
theorem parseControlLine_delivery_of_le (h : delivery.WellFormed)
    (hsize : 2 ^ 64 ≤ delivery.body.length) :
    ∃ err, parseControlLine (delivery.controlText ++ crlf) = .error err := by
  obtain ⟨rest, htokens, heq⟩ := exists_parseControlLine_eq h
  have htotal := parseUsize_digits_of_le hsize
  refine ⟨.invalidLength, ?_⟩
  rw [heq]
  cases hheaders : delivery.headers with
  | none =>
      have hlengths : delivery.lengths = [Numeral.digits 10 delivery.body.length] := by
        simp [Delivery.lengths, hheaders]
      show parseMsgLine rest = _
      unfold parseMsgLine
      rw [splitFields, htokens, Delivery.fields, hlengths]
      cases delivery.replyTo <;> simp [htotal, bind, Except.bind]
  | some header =>
      have hlengths : delivery.lengths =
          [Numeral.digits 10 header.length, Numeral.digits 10 delivery.body.length] := by
        simp [Delivery.lengths, hheaders]
      show parseHmsgLine rest = _
      unfold parseHmsgLine
      rw [splitFields, htokens, Delivery.fields, hlengths]
      by_cases hheader : header.length < 2 ^ 64
      · cases delivery.replyTo <;>
          simp [htotal, parseUsize_digits hheader, bind, Except.bind]
      · cases delivery.replyTo <;>
          simp [parseUsize_digits_of_le (not_lt.mp hheader), bind, Except.bind]

theorem failIf_of {condition : Prop} [Decidable condition] (h : condition) (err : ClientError)
    (client : Client) : failIf condition err client = (.error err, client) := by
  rw [failIf, if_pos h]
  rfl

theorem copyText_of_lt {size : Nat} {value : Bytes} (h : size < value.length) (err : ClientError)
    (client : Client) : copyText err size value client = (.error err, client) :=
  bind_of_error (failIf_of h err client) _

/-- A message that does not fit is rejected in front of its body. -/
theorem readBody_of_not_fits (h : ¬delivery.Fits buffers) (client : Client) :
    ∃ err, readBody delivery.parsed buffers delivery.body.length client = (.error err, client) := by
  unfold readBody
  by_cases hbody : delivery.body.length > buffers.payload
  · exact ⟨_, bind_of_error (failIf_of hbody _ client) _⟩
  · rw [bind_of_ok (failIf_of_not hbody _)]
    by_cases hsubject : buffers.subject < delivery.subject.length
    · exact ⟨_, bind_of_error (copyText_of_lt hsubject _ client) _⟩
    · have hcopied : copySubject buffers.subject delivery.parsed.subject client =
          (.ok delivery.subject, client) := copyText_of_le (not_lt.mp hsubject) _
      rw [bind_of_ok hcopied]
      by_cases hreply : buffers.reply < (delivery.replyTo.getD []).length
      · exact ⟨_, bind_of_error (copyText_of_lt hreply _ client) _⟩
      · exact absurd ⟨not_lt.mp hsubject, not_lt.mp hreply, not_lt.mp hbody⟩ h

/-- **A message that does not fit**: its control line is taken, and its body stays in the stream. -/
theorem nextRawLoop_rejected (h : delivery.WellFormed) (hnot : ¬delivery.Fits buffers)
    (hroom : delivery.controlText.length + 2 ≤ client.capacity) (rounds : Nat) (rest : Bytes) :
    ∃ err, nextRawLoop buffers (rounds + 1)
        (client.at (delivery.controlText ++ crlf ++ (delivery.body ++ crlf ++ rest))) =
      (.error err, client.at (delivery.body ++ crlf ++ rest)) := by
  have hnewline : newline ∉ delivery.controlText := fun hmem => h.not_mem_crlf newline hmem (by decide)
  have hline := takeDelimiterInclusive_line hnewline hroom (delivery.body ++ crlf ++ rest)
  obtain ⟨err, hbody⟩ := readBody_of_not_fits hnot (client.at (delivery.body ++ crlf ++ rest))
  rw [nextRawLoop, bind_of_ok hline]
  by_cases hsize : delivery.body.length < 2 ^ 64
  · rw [parseControlLine_delivery h hsize]
    refine ⟨err, (bind_of_ok rfl _).trans ?_⟩
    cases hheaders : delivery.headers with
    | none =>
        have hkind : delivery.parsed.kind = .msg := by simp [Delivery.parsed, hheaders]
        rw [hkind]
        show readMsg delivery.parsed buffers _ = _
        rw [readMsg, payloadLength_parsed hsize hheaders]
        exact (bind_of_ok rfl _).trans hbody
    | some header =>
        have hkind : delivery.parsed.kind = .hmsg := by simp [Delivery.parsed, hheaders]
        rw [hkind]
        show readHmsg delivery.parsed buffers _ = _
        rw [readHmsg, hmsgLengths_parsed hsize hheaders]
        refine (bind_of_ok rfl _).trans ?_
        rw [bind_of_ok (failIf_of_not (Delivery.header_le hheaders) _)]
        exact bind_of_error hbody _
  · -- the length is no `usize`, so that the control line itself is refused
    obtain ⟨parseErr, hparse⟩ := parseControlLine_delivery_of_le h (not_lt.mp hsize)
    rw [hparse]
    exact ⟨_, bind_of_error rfl _⟩

/-- The call's buffers hold the message, or its body is harmless. -/
def Frame.Safe (buffers : Buffers) : Frame → Prop
  | .regular (.deliver delivery) => delivery.Fits buffers ∨ delivery.Harmless
  | _ => True

/-- A frame whose line announces no message. -/
theorem follows_line {frame : Frame} (hbytes : frame.bytes = text ++ crlf) (hline : newline ∉ text)
    (hquiet : Quiet (text ++ [13])) (hgo : ∀ client : Client, Synced client frames →
      Follows frames (nextRawLoop buffers rounds client)) :
    Follows (frame :: frames)
      (nextRawLoop buffers (rounds + 1) (client.at (frameStream (frame :: frames)))) := by
  have hsplit : frameStream (frame :: frames) = (text ++ [13]) ++ newline :: frameStream frames := by
    simp [frameStream, hbytes, crlf, newline]
  have hfront := synced_stream client (frame :: frames)
  have hrest := synced_stream client frames
  rw [hsplit] at hfront ⊢
  refine follows_quiet (newline_not_mem_return hline) hquiet hfront ?_ ?_
  · exact fun err => (follows_error hrest err).cons frame
  · exact fun written => (hgo _ (hrest.wrote written)).cons frame

/-- A message: it is returned if it fits, and else it leaves noise. -/
theorem follows_delivery (h : delivery.WellFormed)
    (hsafe : delivery.Fits buffers ∨ delivery.Harmless) (frames : List Frame) (rounds : Nat) :
    Follows (.regular (.deliver delivery) :: frames) (nextRawLoop buffers (rounds + 1)
      (client.at (frameStream (.regular (.deliver delivery) :: frames)))) := by
  have hstart := synced_stream client (.regular (.deliver delivery) :: frames)
  have hsplit : frameStream (.regular (.deliver delivery) :: frames) =
      delivery.controlText ++ crlf ++ (delivery.body ++ crlf ++ frameStream frames) := by
    simp [frameStream, Frame.bytes, Operation.bytes, Operation.controlText, Operation.trailer]
  by_cases hroom : delivery.controlText.length + 2 ≤ client.capacity
  · by_cases hfits : delivery.Fits buffers
    · have hoperation : (Operation.deliver delivery).Fits client.capacity buffers :=
        ⟨hroom, by simp, by simpa using hfits⟩
      have hformed : (Operation.deliver delivery).WellFormed := h
      have hrun := nextRawLoop_operation hformed hoperation rounds (frameStream frames)
      have hbytes : frameStream (.regular (.deliver delivery) :: frames) =
          (Operation.deliver delivery).bytes ++ frameStream frames := by
        simp [frameStream, Frame.bytes]
      rw [hbytes, hrun]
      exact ⟨[.regular (.deliver delivery)], frames, rfl, synced_stream client frames,
        List.Sublist.refl _⟩
    · -- the body that is left in the stream is noise
      obtain ⟨err, hrun⟩ := nextRawLoop_rejected h hfits hroom rounds (frameStream frames)
      rw [hsplit, hrun]
      have hnoise := (hsafe.resolve_left hfits).noise
      exact (follows_error ⟨_, hnoise, rfl⟩ err).cons _
  · -- the control line does not fit the reader
    have hnewline : newline ∉ delivery.controlText ++ [13] :=
      newline_not_mem_return fun hmem => h.not_mem_crlf newline hmem (by decide)
    have hline : delivery.controlText ++ crlf ++ (delivery.body ++ crlf ++ frameStream frames) =
        (delivery.controlText ++ [13]) ++ newline ::
          (delivery.body ++ crlf ++ frameStream frames) := by
      simp [crlf, newline]
    have hread : Format.readUntil newline (client.at ((delivery.controlText ++ [13]) ++ newline ::
        (delivery.body ++ crlf ++ frameStream frames))).input = some (delivery.controlText ++ [13],
          delivery.body ++ crlf ++ frameStream frames) := Format.readUntil_append hnewline _
    rw [hsplit, hline] at hstart ⊢
    have hlong := takeDelimiterInclusive_of_lt hread (by
      rw [List.length_append, List.length_singleton]
      exact not_le.mp hroom)
    rw [nextRawLoop, bind_of_error hlong]
    exact follows_error hstart _

/-! ## One call -/

/-- The reader is at a frame of the server. -/
theorem follows_frame {frame : Frame} (hformed : frame.WellFormed) (hsafe : frame.Safe buffers)
    (hgo : ∀ client : Client, Synced client frames →
      Follows frames (nextRawLoop buffers rounds client)) :
    Follows (frame :: frames)
      (nextRawLoop buffers (rounds + 1) (client.at (frameStream (frame :: frames)))) := by
  cases frame with
  | err text =>
      have hline : newline ∉ ascii "-ERR " ++ text := by
        rw [List.mem_append]
        rintro (hword | htext)
        · exact absurd hword (by decide)
        · exact hformed htext
      exact follows_line rfl hline (quiet_of_parse (parseControlLine_err text) (by simp) (by simp)) hgo
  | regular operation =>
      have hoperation : operation.WellFormed := hformed
      by_cases hdelivery : ∃ delivery, operation = .deliver delivery
      · obtain ⟨delivery, rfl⟩ := hdelivery
        exact follows_delivery hoperation hsafe frames rounds
      · have hnone : ∀ delivery, operation ≠ .deliver delivery := fun delivery heq =>
          hdelivery ⟨delivery, heq⟩
        have hparsed := parseControlLine_line hoperation fun delivery heq => absurd heq (hnone delivery)
        have hkind : operation.parsed.kind ≠ .msg ∧ operation.parsed.kind ≠ .hmsg := by
          cases operation <;> simp_all [Operation.parsed]
        have hbytes : (Frame.regular operation).bytes = operation.controlText ++ crlf := by
          cases operation <;> simp_all [Frame.bytes, Operation.bytes, Operation.trailer]
        exact follows_line hbytes hoperation.newline_not_mem (quiet_of_parse hparsed hkind.1 hkind.2) hgo

/-- **Step lemma.** A call on safe frames returns a message of theirs or fails, and stays synced. -/
theorem follows_loop (rounds : Nat) (hformed : ∀ frame ∈ frames, frame.WellFormed)
    (hsafe : ∀ frame ∈ frames, frame.Safe buffers) (hsynced : Synced client frames) :
    Follows frames (nextRawLoop buffers rounds client) := by
  induction rounds generalizing client frames with
  | zero => exact follows_error hsynced _
  | succ rounds ih =>
      have hstart := hsynced
      obtain ⟨noise, hnoise, hinput⟩ := hsynced
      rw [← Client.at_input client, hinput] at hstart ⊢
      rcases hnoise.clean.eq_nil_or_line with rfl | ⟨line, rest, rfl, hline, hclean, hlines⟩
      · rw [List.nil_append]
        cases frames with
        | nil =>
            obtain ⟨err, hnone⟩ := takeDelimiterInclusive_nil client newline
            show Follows [] (nextRawLoop buffers (rounds + 1) (client.at []))
            rw [nextRawLoop, bind_of_error hnone]
            exact follows_error (synced_stream client []) err
        | cons frame frames =>
            obtain ⟨hfirst, hrest⟩ := List.forall_mem_cons.mp hformed
            obtain ⟨hfirstSafe, hrestSafe⟩ := List.forall_mem_cons.mp hsafe
            exact follows_frame hfirst hfirstSafe fun _ hnext => ih hrest hrestSafe hnext
      · -- the first line of the noise
        have hquiet := hnoise.quiet
        rw [hlines] at hquiet
        obtain ⟨hfirst, hlater⟩ := List.forall_mem_cons.mp hquiet
        have hbehind : Synced (client.at (rest ++ frameStream frames)) frames :=
          ⟨rest, ⟨hclean, hlater⟩, rfl⟩
        rw [List.append_assoc, List.cons_append] at hstart ⊢
        refine follows_quiet hline hfirst hstart (fun err => follows_error hbehind err) ?_
        exact fun text => ih hformed hsafe (hbehind.wrote text)

/-! ## Any number of calls -/

/-- **Rejected messages do not desynchronise safe calls.** Whatever well-formed frames the server
sends, and whatever buffers the calls bring: if each call's buffers hold every message or reject
only messages whose body has no line that announces a message, then the calls return messages that
the server framed, in their order. -/
theorem returned_sublist (frames : List Frame) (calls : List Buffers) (client : Client)
    (hinput : client.input = frameStream frames) (hformed : ∀ frame ∈ frames, frame.WellFormed)
    (hsafe : ∀ buffers ∈ calls, ∀ frame ∈ frames, frame.Safe buffers) :
    (returned client calls).Sublist (framed frames) := by
  have hsynced : Synced client frames := ⟨[], noise_nil, hinput⟩
  clear hinput
  -- over the calls: each passes over some frames and is synced with the others
  induction calls generalizing client frames with
  | nil => exact List.nil_sublist _
  | cons buffers calls ih =>
      obtain ⟨hfirst, hlater⟩ := List.forall_mem_cons.mp hsafe
      obtain ⟨passed, rest, rfl, hnext, hmessage⟩ :=
        follows_loop (client.input.length + 1) hformed hfirst hsynced
      have hrest := ih rest (receive client buffers).1
        (fun frame hframe => hformed frame (List.mem_append_right _ hframe))
        (fun other hother frame hframe => hlater other hother frame (List.mem_append_right _ hframe))
        hnext
      have hframed : framed (passed ++ rest) = framed passed ++ framed rest := List.filterMap_append ..
      rw [returned_cons, hframed]
      exact hmessage.append hrest

/-- Buffers for very short messages. -/
def tightBuffers : Buffers where
  payload := 6
  subject := 64
  reply := 64
  scratch := 16
  payload_lt := by decide

/-- The first message is rejected; its body is read as an empty line, a `PING` and an empty line, and
then the second message is returned. -/
theorem returned_sublist_pingPayload :
    let frames : List Frame := [.regular (.deliver pingPayload), .regular (.deliver pingPayload)]
    let client : Client := { capacity := 64, input := frameStream frames }
    let calls : List Buffers := [tightBuffers, shortBuffers, shortBuffers, shortBuffers]
    returned client calls = [pingPayload.raw] ∧ (returned client calls).Sublist (framed frames) := by
  have hformed : pingPayload.WellFormed := by
    refine ⟨?_, ?_, ?_⟩
    · unfold IsField
      decide +kernel
    · unfold IsField
      decide +kernel
    · intro reply hreply
      cases hreply
  have hquiet : ∀ line ∈ Lines.completeLines newline (pingPayload.body ++ crlf),
      (parseControlLine (line ++ [newline])).toOption.all
        fun message => message.kind ≠ .msg ∧ message.kind ≠ .hmsg := by decide +kernel
  have hharmless : pingPayload.Harmless := by
    intro line hline message hmessage
    simpa [hmessage, Except.toOption] using hquiet line hline
  refine ⟨by decide +kernel, returned_sublist _ _ _ rfl ?_ ?_⟩
  · simpa [Frame.WellFormed, Operation.WellFormed] using hformed
  · simp [Frame.Safe, hharmless]

/-- A message whose body reads like a message of another subject. -/
def smuggled : Delivery where
  subject := ascii "notes"
  sid := ascii "1"
  replyTo := none
  headers := none
  payload := ascii "MSG forged 1 2\r\nhi"

/-- The server frames one message; it is rejected, and then a message is returned that the server
did not frame. -/
theorem not_returned_sublist_smuggled :
    let client : Client :=
      { capacity := 64, input := frameStream [.regular (.deliver smuggled)] }
    let forged : RawMessage :=
      { subject := ascii "forged", replyTo := [], payload := ascii "hi" }
    (Execution.trace receive client [tightBuffers, tightBuffers]).map Prod.snd =
        [.error .payloadTooLarge, .ok forged] ∧
      framed [.regular (.deliver smuggled)] = [smuggled.raw] ∧
      ¬(returned client [tightBuffers, tightBuffers]).Sublist
        (framed [.regular (.deliver smuggled)]) := by
  exact ⟨by decide +kernel, rfl, by decide +kernel⟩

end Ubiq.Nats
