import Ubiq.Foundation.Format
import Ubiq.Foundation.Text

/-!
# The NATS text protocol

`nats_protocol.zig`: the encoder of `PUB` and the parser of the lines that a server sends. A
parsed message carries its lengths as texts in fields that are free at that time.

`Operation` is what a server sends; `parseControlLine_line` says what the parser makes of the
control line of every well-formed operation.
-/

namespace Ubiq.Nats

open Foundation

inductive ProtocolError
  | bufferTooSmall
  | invalidControlLine
  | invalidMessage
  | invalidLength
  | invalidSubject
deriving DecidableEq, Repr

inductive ServerKind
  | info
  | ok
  | err
  | ping
  | pong
  | msg
  | hmsg
deriving DecidableEq, Repr

structure ServerMessage where
  kind : ServerKind
  subject : Bytes := []
  sid : Bytes := []
  replyTo : Bytes := []
  headers : Bytes := []
  payload : Bytes := []
  infoOrError : Bytes := []
deriving DecidableEq, Repr

/-- The end of a line. -/
def crlf : Bytes := [13, 10]

/-- The space between fields. -/
def space : UInt8 := 32

/-! ## What a client sends -/

def validateSubject (subject : Bytes) : Except ProtocolError Unit :=
  if subject.length = 0 then .error .invalidSubject
  else if subject.any fun byte => byte ≤ 32 || byte = 0x7f then .error .invalidSubject
  else .ok ()

/-- `std.fmt.bufPrint` of a text into a buffer of the given size. -/
def bufPrint (size : Nat) (text : Bytes) : Except ProtocolError Bytes :=
  if text.length ≤ size then .ok text else .error .bufferTooSmall

def encodePong (size : Nat) : Except ProtocolError Bytes :=
  if size < 6 then .error .bufferTooSmall else .ok (ascii "PONG" ++ crlf)

/-- `encodePub` into a buffer of the given size. -/
def encodePub (size : Nat) (subject : Bytes) (replyTo : Option Bytes) (payload : Bytes) :
    Except ProtocolError Bytes := do
  validateSubject subject
  let control ← match replyTo with
    | some reply =>
        bufPrint size (ascii "PUB " ++ subject ++ ascii " " ++ reply ++ ascii " " ++
          Numeral.digits 10 payload.length ++ crlf)
    | none =>
        bufPrint size (ascii "PUB " ++ subject ++ ascii " " ++
          Numeral.digits 10 payload.length ++ crlf)
  if size < control.length + payload.length + 2 then .error .bufferTooSmall
  else .ok (control ++ payload ++ crlf)

/-! ## What a server sends -/

/-- `std.fmt.parseInt` into a `usize`. -/
def parseUsize (text : Bytes) : Except ProtocolError Nat :=
  match Numeral.parseInt 10 (2 ^ 64) text with
  | some value => .ok value
  | none => .error .invalidLength

/-- `splitFields` with room for `capacity` fields: one more than fit stands for all that are
too many. -/
def splitFields (input : Bytes) (capacity : Nat) : List Bytes :=
  (Text.tokenizeScalar space input).take (capacity + 1)

def parseMsgLine (fields : Bytes) : Except ProtocolError ServerMessage :=
  match splitFields fields 4 with
  | [subject, sid, length] => do
      let _ ← parseUsize length
      return { kind := .msg, subject := subject, sid := sid, infoOrError := length }
  | [subject, sid, replyTo, length] => do
      let _ ← parseUsize length
      return { kind := .msg, subject := subject, sid := sid, replyTo := replyTo, infoOrError := length }
  | _ => .error .invalidMessage

def parseHmsgLine (fields : Bytes) : Except ProtocolError ServerMessage :=
  match splitFields fields 5 with
  | [subject, sid, header, total] => do
      let _ ← parseUsize header
      let _ ← parseUsize total
      return { kind := .hmsg, subject := subject, sid := sid, headers := header, infoOrError := total }
  | [subject, sid, replyTo, header, total] => do
      let _ ← parseUsize header
      let _ ← parseUsize total
      return { kind := .hmsg, subject := subject, sid := sid, replyTo := replyTo, headers := header,
               infoOrError := total }
  | _ => .error .invalidMessage

def parseControlLine (lineWithOptionalCrlf : Bytes) : Except ProtocolError ServerMessage :=
  let line := Text.trimEnd crlf lineWithOptionalCrlf
  if line = ascii "+OK" then .ok { kind := .ok }
  else if line = ascii "PING" then .ok { kind := .ping }
  else if line = ascii "PONG" then .ok { kind := .pong }
  else
    match Format.strip (ascii "INFO ") line with
    | some text => .ok { kind := .info, infoOrError := text }
    | none =>
    match Format.strip (ascii "-ERR ") line with
    | some text => .ok { kind := .err, infoOrError := text }
    | none =>
    match Format.strip (ascii "MSG ") line with
    | some fields => parseMsgLine fields
    | none =>
    match Format.strip (ascii "HMSG ") line with
    | some fields => parseHmsgLine fields
    | none => .error .invalidControlLine

def payloadLength (message : ServerMessage) : Except ProtocolError Nat :=
  if message.kind ≠ .msg then .error .invalidMessage else parseUsize message.infoOrError

structure HmsgLengths where
  header : Nat
  total : Nat
deriving DecidableEq, Repr

def hmsgLengths (message : ServerMessage) : Except ProtocolError HmsgLengths :=
  if message.kind ≠ .hmsg then .error .invalidMessage
  else do
    let header ← parseUsize message.headers
    let total ← parseUsize message.infoOrError
    return { header := header, total := total }

/-! ## Operations -/

/-- What the server delivers: a message with its header block, if it has one. `gaps` are the
spaces beyond the first in front of each field of the control line. -/
structure Delivery where
  subject : Bytes
  sid : Bytes
  replyTo : Option Bytes
  headers : Option Bytes
  payload : Bytes
  gaps : List Nat := []
deriving DecidableEq, Repr

/-- The operations of a server. -/
inductive Operation
  | ping
  | pong
  | ok
  | info (text : Bytes)
  | deliver (delivery : Delivery)
deriving DecidableEq, Repr

namespace Delivery

/-- The body behind the control line. -/
def body (delivery : Delivery) : Bytes :=
  delivery.headers.getD [] ++ delivery.payload

/-- `MSG` without and `HMSG` with a header block. -/
def keyword (delivery : Delivery) : Bytes :=
  if delivery.headers.isSome then ascii "HMSG" else ascii "MSG"

/-- The lengths in the control line. -/
def lengths (delivery : Delivery) : List Bytes :=
  (delivery.headers.toList ++ [delivery.body]).map fun text => Numeral.digits 10 text.length

/-- The fields of the control line. -/
def fields (delivery : Delivery) : List Bytes :=
  [delivery.subject, delivery.sid] ++ delivery.replyTo.toList ++ delivery.lengths

/-- The control line without its end. -/
def controlText (delivery : Delivery) : Bytes :=
  delivery.keyword ++ Text.spaced space delivery.gaps delivery.fields

end Delivery

namespace Operation

/-- The control line without its end. -/
def controlText : Operation → Bytes
  | .ping => ascii "PING"
  | .pong => ascii "PONG"
  | .ok => ascii "+OK"
  | .info text => ascii "INFO " ++ text
  | .deliver delivery => delivery.controlText

/-- What follows the control line. -/
def trailer : Operation → Bytes
  | .deliver delivery => delivery.body ++ crlf
  | _ => []

/-- The bytes of an operation. -/
def bytes (operation : Operation) : Bytes :=
  operation.controlText ++ crlf ++ operation.trailer

end Operation

/-- A subject, sid or reply: not empty, and without spaces and control bytes. -/
def IsField (text : Bytes) : Prop :=
  text ≠ [] ∧ ∀ byte ∈ text, 32 < byte ∧ byte ≠ 0x7f

/-- The fields of a delivery have the form that the protocol gives them. -/
structure Delivery.WellFormed (delivery : Delivery) : Prop where
  subject : IsField delivery.subject
  sid : IsField delivery.sid
  replyTo : ∀ reply ∈ delivery.replyTo, IsField reply

/-- The line of an `INFO` does not end early. -/
def Operation.WellFormed : Operation → Prop
  | .info text => newline ∉ text
  | .deliver delivery => delivery.WellFormed
  | _ => True

/-! ## Parsing operations -/

/-- A byte that ends no line and no field. -/
def Plain (byte : UInt8) : Prop :=
  byte ≠ space ∧ byte ∉ crlf

theorem IsField.plain {text : Bytes} (h : IsField text) {byte : UInt8} (hmem : byte ∈ text) :
    Plain byte := by
  have hbig : (32 : UInt8) < byte := (h.2 byte hmem).1
  constructor
  · rintro rfl
    exact absurd hbig (by decide)
  · intro hend
    rcases List.mem_pair.mp hend with rfl | rfl
    · exact absurd hbig (by decide)
    · exact absurd hbig (by decide)

theorem IsField.isToken {text : Bytes} (h : IsField text) : Text.IsToken space text :=
  ⟨h.1, fun hmem => (h.plain hmem).1 rfl⟩

theorem isField_digits (value : Nat) : IsField (Numeral.digits 10 value) := by
  refine ⟨Numeral.digits_ne_nil 10 value, fun byte hmem => ?_⟩
  obtain ⟨digit, hlt, rfl⟩ := Numeral.mem_digits (by decide) hmem
  have hall : ∀ d < 10, (32 : UInt8) < Numeral.digitByte d ∧ Numeral.digitByte d ≠ 0x7f := by decide
  exact hall digit hlt

theorem parseUsize_digits {value : Nat} (h : value < 2 ^ 64) :
    parseUsize (Numeral.digits 10 value) = .ok value := by
  rw [parseUsize, Numeral.parseInt_digits (by decide) (by decide) h]

theorem mem_spaced {gaps : List Nat} {tokens : List Bytes} {byte : UInt8}
    (h : byte ∈ Text.spaced space gaps tokens) : byte = space ∨ ∃ token ∈ tokens, byte ∈ token := by
  induction tokens generalizing gaps with
  | nil => cases h
  | cons token rest ih =>
      rw [Text.spaced, List.mem_cons, List.mem_append, List.mem_append] at h
      rcases h with hspace | (hgap | htoken) | hrest
      · exact Or.inl hspace
      · exact Or.inl (List.eq_of_mem_replicate hgap)
      · exact Or.inr ⟨token, List.mem_cons_self, htoken⟩
      · rcases ih hrest with hspace | ⟨other, hmem, hbyte⟩
        · exact Or.inl hspace
        · exact Or.inr ⟨other, List.mem_cons_of_mem _ hmem, hbyte⟩

namespace Delivery

variable {delivery : Delivery}

theorem WellFormed.isField (h : delivery.WellFormed) : ∀ field ∈ delivery.fields, IsField field := by
  intro field hmem
  rw [fields, List.mem_append, List.mem_append] at hmem
  rcases hmem with (hfirst | hreply) | hlength
  · rcases List.mem_pair.mp hfirst with rfl | rfl
    · exact h.subject
    · exact h.sid
  · exact h.replyTo field (Option.mem_toList.mp hreply)
  · obtain ⟨text, -, rfl⟩ := List.mem_map.mp hlength
    exact isField_digits _

theorem WellFormed.not_mem_crlf (h : delivery.WellFormed) :
    ∀ byte ∈ delivery.controlText, byte ∉ crlf := by
  have hkeyword : ∀ byte ∈ delivery.keyword, byte ∉ crlf := by
    unfold keyword
    split <;> decide +kernel
  intro byte hmem
  rcases List.mem_append.mp hmem with hword | hspaced
  · exact hkeyword byte hword
  · rcases mem_spaced hspaced with rfl | ⟨field, hfield, hbyte⟩
    · decide
    · exact ((h.isField field hfield).plain hbyte).2

/-- What the parser makes of the control line. -/
def parsed (delivery : Delivery) : ServerMessage where
  kind := if delivery.headers.isSome then .hmsg else .msg
  subject := delivery.subject
  sid := delivery.sid
  replyTo := delivery.replyTo.getD []
  headers := (delivery.headers.map fun text => Numeral.digits 10 text.length).getD []
  infoOrError := Numeral.digits 10 delivery.body.length

/-- The fields stand behind the keyword and one space. -/
theorem exists_controlText_eq (h : delivery.WellFormed) :
    ∃ rest, delivery.controlText = delivery.keyword ++ space :: rest ∧
      Text.tokenizeScalar space rest = delivery.fields := by
  have htokens := Text.tokenizeScalar_spaced
    (fun field hfield => (h.isField field hfield).isToken) delivery.gaps
  have hfields : delivery.fields =
      delivery.subject :: (delivery.sid :: delivery.replyTo.toList ++ delivery.lengths) := rfl
  rw [hfields, Text.spaced, Text.tokenizeScalar_cons_self] at htokens
  exact ⟨_, rfl, htokens⟩

theorem length_body_lt (hsize : delivery.body.length < 2 ^ 64) {header : Bytes}
    (h : delivery.headers = some header) : header.length < 2 ^ 64 := by
  rw [body, h, Option.getD_some, List.length_append] at hsize
  omega

theorem parseMsgLine_fields {rest : Bytes} (hrest : Text.tokenizeScalar space rest = delivery.fields)
    (hsize : delivery.body.length < 2 ^ 64) (hheaders : delivery.headers = none) :
    parseMsgLine rest = .ok delivery.parsed := by
  have hsplit : splitFields rest 4 = delivery.fields.take 5 := by rw [splitFields, hrest]
  have hlengths : delivery.lengths = [Numeral.digits 10 delivery.body.length] := by
    simp [lengths, hheaders]
  unfold parseMsgLine
  rw [hsplit, fields, hlengths]
  cases hreply : delivery.replyTo <;>
    simp [parsed, hreply, hheaders, parseUsize_digits hsize, bind, Except.bind, pure, Except.pure]

theorem parseHmsgLine_fields {rest : Bytes}
    (hrest : Text.tokenizeScalar space rest = delivery.fields)
    (hsize : delivery.body.length < 2 ^ 64) {header : Bytes} (hheaders : delivery.headers = some header) :
    parseHmsgLine rest = .ok delivery.parsed := by
  have hsplit : splitFields rest 5 = delivery.fields.take 6 := by rw [splitFields, hrest]
  have hlengths : delivery.lengths =
      [Numeral.digits 10 header.length, Numeral.digits 10 delivery.body.length] := by
    simp [lengths, hheaders]
  have hheader := parseUsize_digits (length_body_lt hsize hheaders)
  unfold parseHmsgLine
  rw [hsplit, fields, hlengths]
  cases hreply : delivery.replyTo <;>
    simp [parsed, hreply, hheaders, hheader, parseUsize_digits hsize, bind, Except.bind, pure,
      Except.pure]

end Delivery

theorem trimEnd_crlf {text : Bytes} (hne : text ≠ []) (h : ∀ byte ∈ text, byte ∉ crlf) :
    Text.trimEnd crlf (text ++ crlf) = text := by
  rw [Text.trimEnd_append hne (h _ (List.getLast_mem hne)), Text.trimEnd_eq_nil fun _ hmem => hmem,
    List.append_nil]

/-- The keyword says which of the two forms the fields have. -/
theorem exists_parseControlLine_eq {delivery : Delivery} (h : delivery.WellFormed) :
    ∃ rest, Text.tokenizeScalar space rest = delivery.fields ∧
      parseControlLine (delivery.controlText ++ crlf) =
        if delivery.headers.isSome then parseHmsgLine rest else parseMsgLine rest := by
  obtain ⟨rest, htext, htokens⟩ := Delivery.exists_controlText_eq h
  have hne : delivery.controlText ≠ [] := by simp [htext]
  refine ⟨rest, htokens, ?_⟩
  unfold parseControlLine
  rw [trimEnd_crlf hne h.not_mem_crlf, htext, Delivery.keyword]
  cases delivery.headers <;> rfl

theorem parseControlLine_delivery {delivery : Delivery} (h : delivery.WellFormed)
    (hsize : delivery.body.length < 2 ^ 64) :
    parseControlLine (delivery.controlText ++ crlf) = .ok delivery.parsed := by
  obtain ⟨rest, htokens, heq⟩ := exists_parseControlLine_eq h
  rw [heq]
  cases hheaders : delivery.headers with
  | none => exact Delivery.parseMsgLine_fields htokens hsize hheaders
  | some header => exact Delivery.parseHmsgLine_fields htokens hsize hheaders

theorem parseControlLine_info (text : Bytes) :
    parseControlLine (ascii "INFO " ++ text ++ crlf) =
      .ok { kind := .info, infoOrError := Text.trimEnd crlf (text ++ crlf) } := by
  have hne : ascii "INFO " ≠ [] := by decide
  have hplain : ∀ byte ∈ ascii "INFO ", byte ∉ crlf := by decide +kernel
  unfold parseControlLine
  rw [List.append_assoc, Text.trimEnd_append hne (hplain _ (List.getLast_mem hne))]
  rfl

/-- What the parser makes of the control line of an operation. -/
def Operation.parsed : Operation → ServerMessage
  | .ping => { kind := .ping }
  | .pong => { kind := .pong }
  | .ok => { kind := .ok }
  | .info text => { kind := .info, infoOrError := Text.trimEnd crlf (text ++ crlf) }
  | .deliver delivery => delivery.parsed

/-- **The control line of every well-formed operation is parsed.** -/
theorem parseControlLine_line {operation : Operation} (h : operation.WellFormed)
    (hsize : ∀ delivery, operation = .deliver delivery → delivery.body.length < 2 ^ 64) :
    parseControlLine (operation.controlText ++ crlf) = .ok operation.parsed := by
  cases operation with
  | ping => decide
  | pong => decide
  | ok => decide
  | info text => exact parseControlLine_info text
  | deliver delivery => exact parseControlLine_delivery h (hsize delivery rfl)

theorem Operation.WellFormed.newline_not_mem {operation : Operation} (h : operation.WellFormed) :
    newline ∉ operation.controlText := by
  cases operation with
  | ping => decide
  | pong => decide
  | ok => decide
  | info text =>
      rw [Operation.controlText, List.mem_append]
      rintro (hword | htext)
      · exact absurd hword (by decide)
      · exact h htext
  | deliver delivery =>
      intro hmem
      exact Delivery.WellFormed.not_mem_crlf h newline hmem (by decide)

end Ubiq.Nats
