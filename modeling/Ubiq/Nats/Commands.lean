import Ubiq.Foundation.Fallible
import Ubiq.Foundation.PairLines
import Ubiq.Nats.Protocol

/-!
# Commands of a NATS client

The encoders of `nats_protocol.zig` that write commands, and the grammar by which a server reads
them: a line that ends with `\r\n` and has tokens between spaces, and for `PUB` and `HPUB` a body of
the length in the line.

The encoders validate the subject and nothing else. `one_command_iff` says which reply subjects and
subscription ids let a call send the command that it was made for, and nothing besides.
-/

namespace Ubiq.Nats

open Foundation

/-! ## The encoders -/

/-- `encodeSub` into a buffer of the given size. -/
def encodeSub (size : Nat) (subject sid : Bytes) : Except ProtocolError Bytes := do
  validateSubject subject
  bufPrint size (ascii "SUB " ++ subject ++ ascii " " ++ sid ++ crlf)

/-- `encodeUnsub` into a buffer of the given size. -/
def encodeUnsub (size : Nat) (sid : Bytes) (maxMessages : Option UInt32) :
    Except ProtocolError Bytes :=
  match maxMessages with
  | some max =>
      bufPrint size (ascii "UNSUB " ++ sid ++ ascii " " ++ Numeral.digits 10 max.toNat ++ crlf)
  | none => bufPrint size (ascii "UNSUB " ++ sid ++ crlf)

/-- The header block that `encodeHpub` prints. -/
def headerBlock (headerLines : Bytes) : Bytes :=
  ascii "NATS/1.0\r\n" ++ headerLines ++ crlf

/-- `encodeHpub` into a buffer of the given size. -/
def encodeHpub (size : Nat) (subject : Bytes) (replyTo : Option Bytes)
    (headerLines payload : Bytes) : Except ProtocolError Bytes := do
  validateSubject subject
  let headers ← bufPrint 2048 (headerBlock headerLines)
  let totalLen := headers.length + payload.length
  let control ← match replyTo with
    | some reply =>
        bufPrint size (ascii "HPUB " ++ subject ++ ascii " " ++ reply ++ ascii " " ++
          Numeral.digits 10 headers.length ++ ascii " " ++ Numeral.digits 10 totalLen ++ crlf)
    | none =>
        bufPrint size (ascii "HPUB " ++ subject ++ ascii " " ++
          Numeral.digits 10 headers.length ++ ascii " " ++ Numeral.digits 10 totalLen ++ crlf)
  if size < control.length + totalLen + 2 then .error .bufferTooSmall
  else .ok (control ++ headers ++ payload ++ crlf)

/-! ## The grammar of commands -/

/-- A command as a server reads it. -/
inductive Command
  | sub (subject : Bytes) (queue : Option Bytes) (sid : Bytes)
  | unsub (sid : Bytes) (maxMessages : Option Nat)
  | pub (subject : Bytes) (replyTo : Option Bytes) (payload : Bytes)
  | hpub (subject : Bytes) (replyTo : Option Bytes) (headers payload : Bytes)
deriving DecidableEq, Repr

/-- A length or a number of messages. -/
def readNumber (text : Bytes) : Option Nat :=
  Numeral.readPlain 10 text

/-- A body of the given length and the line end behind it. -/
def readBlock (length : Nat) (input : Bytes) : Option (Bytes × Bytes) :=
  if input.length < length then none
  else (Format.strip crlf (input.drop length)).map fun rest => (input.take length, rest)

/-- The arguments of `SUB`; a queue group may stand before the subscription id. -/
def readSub (rest : Bytes) : List Bytes → Option (Command × Bytes)
  | [subject, sid] => some (.sub subject none sid, rest)
  | [subject, queue, sid] => some (.sub subject (some queue) sid, rest)
  | _ => none

/-- The arguments of `UNSUB`. -/
def readUnsub (rest : Bytes) : List Bytes → Option (Command × Bytes)
  | [sid] => some (.unsub sid none, rest)
  | [sid, max] => (readNumber max).map fun count => (.unsub sid (some count), rest)
  | _ => none

/-- The body of `PUB`. -/
def readPubBody (subject : Bytes) (replyTo : Option Bytes) (length rest : Bytes) :
    Option (Command × Bytes) :=
  (readNumber length).bind fun count =>
    (readBlock count rest).map fun (payload, final) => (.pub subject replyTo payload, final)

/-- The arguments of `PUB`. -/
def readPub (rest : Bytes) : List Bytes → Option (Command × Bytes)
  | [subject, length] => readPubBody subject none length rest
  | [subject, reply, length] => readPubBody subject (some reply) length rest
  | _ => none

/-- The body of `HPUB`: the header block in front of the payload. -/
def readHpubBody (subject : Bytes) (replyTo : Option Bytes) (header total rest : Bytes) :
    Option (Command × Bytes) :=
  (readNumber header).bind fun headerLength =>
    (readNumber total).bind fun totalLength =>
      if totalLength < headerLength then none
      else
        (readBlock totalLength rest).map fun (body, final) =>
          (.hpub subject replyTo (body.take headerLength) (body.drop headerLength), final)

/-- The arguments of `HPUB`. -/
def readHpub (rest : Bytes) : List Bytes → Option (Command × Bytes)
  | [subject, header, total] => readHpubBody subject none header total rest
  | [subject, reply, header, total] => readHpubBody subject (some reply) header total rest
  | _ => none

/-- The command of a line of tokens and the bytes behind the line. -/
def readCommand (rest : Bytes) : List Bytes → Option (Command × Bytes)
  | [] => none
  | verb :: arguments =>
      if verb = ascii "SUB" then readSub rest arguments
      else if verb = ascii "UNSUB" then readUnsub rest arguments
      else if verb = ascii "PUB" then readPub rest arguments
      else if verb = ascii "HPUB" then readHpub rest arguments
      else none

/-- The first command of the bytes, and what is left over. -/
def parseCommand (input : Bytes) : Option (Command × Bytes) :=
  (PairLines.cut 13 10 input).bind fun (line, rest) =>
    readCommand rest (Text.tokenizeScalar space line)

/-! ## Arguments -/

/-- A text that arrives as one token: not empty, without spaces and without a line end. -/
structure IsArgument (text : Bytes) : Prop where
  isToken : Text.IsToken space text
  noLineEnd : ¬PairLines.HasPair 13 10 text

variable {text subject : Bytes} {size : Nat} {replyTo : Option Bytes}

theorem IsField.isArgument (h : IsField text) : IsArgument text where
  isToken := h.isToken
  noLineEnd := PairLines.not_hasPair_of_not_mem fun hmem => (h.plain hmem).2 (by decide)

theorem validateSubject_eq_ok_iff :
    validateSubject subject = .ok () ↔ IsField subject := by
  unfold validateSubject IsField
  split
  · next hempty => simp [List.length_eq_zero_iff.mp hempty]
  · next hne =>
      have hnonempty : subject ≠ [] := by simpa using hne
      simp only [hnonempty, ne_eq, not_false_eq_true, true_and]
      split
      · next hany =>
          obtain ⟨byte, hmem, hbad⟩ := List.any_eq_true.mp hany
          rw [Bool.or_eq_true, decide_eq_true_eq, decide_eq_true_eq] at hbad
          simp only [reduceCtorEq, false_iff]
          intro hall
          rcases hbad with hsmall | hdelete
          · exact absurd (hall byte hmem).1 (UInt8.not_lt.mpr hsmall)
          · exact (hall byte hmem).2 hdelete
      · next hnone =>
          simp only [true_iff]
          intro byte hmem
          by_contra hbad
          refine hnone (List.any_eq_true.mpr ⟨byte, hmem, ?_⟩)
          rw [Bool.or_eq_true, decide_eq_true_eq, decide_eq_true_eq]
          by_contra hgood
          obtain ⟨hsmall, hdelete⟩ := not_or.mp hgood
          exact hbad ⟨UInt8.not_le.mp hsmall, hdelete⟩

/-- No line end goes across the spaces between tokens. -/
theorem not_hasPair_spaced {tokens : List Bytes}
    (h : ∀ token ∈ tokens, ¬PairLines.HasPair 13 10 token) (htext : ¬PairLines.HasPair 13 10 text) :
    ¬PairLines.HasPair 13 10 (text ++ Text.spaced space [] tokens) := by
  induction tokens generalizing text with
  | nil => simpa [Text.spaced] using htext
  | cons token rest ih =>
      obtain ⟨htoken, hrest⟩ := List.forall_mem_cons.mp h
      have hlater := ih hrest htoken
      rw [Text.spaced, PairLines.hasPair_append_cons (by decide) (by decide)]
      simpa [htext] using hlater

/-! ## One call, one command -/

/-- A call of an encoder. -/
inductive Request
  | sub (subject sid : Bytes)
  | unsub (sid : Bytes) (maxMessages : Option UInt32)
  | pub (subject : Bytes) (replyTo : Option Bytes) (payload : Bytes)
  | hpub (subject : Bytes) (replyTo : Option Bytes) (headerLines payload : Bytes)
deriving DecidableEq

namespace Request

/-- The encoder's call. -/
def encode (size : Nat) : Request → Except ProtocolError Bytes
  | .sub subject sid => encodeSub size subject sid
  | .unsub sid maxMessages => encodeUnsub size sid maxMessages
  | .pub subject replyTo payload => encodePub size subject replyTo payload
  | .hpub subject replyTo headerLines payload => encodeHpub size subject replyTo headerLines payload

/-- The command that the call is made for. -/
def command : Request → Command
  | .sub subject sid => .sub subject none sid
  | .unsub sid maxMessages => .unsub sid (maxMessages.map UInt32.toNat)
  | .pub subject replyTo payload => .pub subject replyTo payload
  | .hpub subject replyTo headerLines payload => .hpub subject replyTo (headerBlock headerLines) payload

/-- The texts that the encoder does not look at. -/
def unchecked : Request → List Bytes
  | .sub _ sid => [sid]
  | .unsub sid _ => [sid]
  | .pub _ replyTo _ => replyTo.toList
  | .hpub _ replyTo _ _ => replyTo.toList

/-- The subject, which the encoder validates. -/
def subject? : Request → Option Bytes
  | .sub subject _ => some subject
  | .unsub _ _ => none
  | .pub subject _ _ => some subject
  | .hpub subject _ _ _ => some subject

/-- The numbers in the line. -/
def numbers : Request → List Nat
  | .sub _ _ => []
  | .unsub _ maxMessages => (maxMessages.map UInt32.toNat).toList
  | .pub _ _ payload => [payload.length]
  | .hpub _ _ headerLines payload =>
      [(headerBlock headerLines).length, (headerBlock headerLines).length + payload.length]

/-- The first word of the line. -/
def verb : Request → Bytes
  | .sub _ _ => ascii "SUB"
  | .unsub _ _ => ascii "UNSUB"
  | .pub _ _ _ => ascii "PUB"
  | .hpub _ _ _ _ => ascii "HPUB"

/-- The words behind the first. -/
def words (request : Request) : List Bytes :=
  request.subject?.toList ++ request.unchecked ++ request.numbers.map (Numeral.digits 10)

/-- What stands behind the line. -/
def body : Request → Bytes
  | .sub _ _ => []
  | .unsub _ _ => []
  | .pub _ _ payload => payload ++ crlf
  | .hpub _ _ headerLines payload => headerBlock headerLines ++ payload ++ crlf

/-- The line and the body. -/
def bytes (request : Request) : Bytes :=
  request.verb ++ Text.spaced space [] request.words ++ crlf ++ request.body

/-- The bytes of a call, in the words of the encoders. -/
theorem bytes_eq (request : Request) :
    request.bytes =
      match request with
      | .sub subject sid => ascii "SUB " ++ subject ++ ascii " " ++ sid ++ crlf
      | .unsub sid none => ascii "UNSUB " ++ sid ++ crlf
      | .unsub sid (some max) =>
          ascii "UNSUB " ++ sid ++ ascii " " ++ Numeral.digits 10 max.toNat ++ crlf
      | .pub subject none payload =>
          ascii "PUB " ++ subject ++ ascii " " ++ Numeral.digits 10 payload.length ++ crlf ++
            (payload ++ crlf)
      | .pub subject (some reply) payload =>
          ascii "PUB " ++ subject ++ ascii " " ++ reply ++ ascii " " ++
            Numeral.digits 10 payload.length ++ crlf ++ (payload ++ crlf)
      | .hpub subject none headerLines payload =>
          ascii "HPUB " ++ subject ++ ascii " " ++
            Numeral.digits 10 (headerBlock headerLines).length ++ ascii " " ++
            Numeral.digits 10 ((headerBlock headerLines).length + payload.length) ++ crlf ++
            (headerBlock headerLines ++ payload ++ crlf)
      | .hpub subject (some reply) headerLines payload =>
          ascii "HPUB " ++ subject ++ ascii " " ++ reply ++ ascii " " ++
            Numeral.digits 10 (headerBlock headerLines).length ++ ascii " " ++
            Numeral.digits 10 ((headerBlock headerLines).length + payload.length) ++ crlf ++
            (headerBlock headerLines ++ payload ++ crlf) := by
  split <;> simp [bytes, verb, words, subject?, unchecked, numbers, body, Text.spaced, ascii, space]

end Request

theorem bufPrint_eq_ok_iff {printed : Bytes} :
    bufPrint size text = .ok printed ↔ printed = text ∧ text.length ≤ size := by
  unfold bufPrint
  split
  · next hle => simp [hle, eq_comm]
  · next hmore => simp [hmore]

/-- A control line and a body in one buffer. -/
theorem printBlock_eq_ok_iff {control body output : Bytes} :
    (bufPrint size control >>= fun printed =>
        if size < printed.length + body.length + 2 then .error .bufferTooSmall
        else .ok (printed ++ body ++ crlf)) = .ok output ↔
      output = control ++ (body ++ crlf) ∧ (control ++ (body ++ crlf)).length ≤ size := by
  have hlength : (control ++ (body ++ crlf)).length = control.length + body.length + 2 := by
    simp [crlf, Nat.add_assoc]
  rw [Fallible.bind_eq_ok, hlength]
  constructor
  · rintro ⟨printed, hprint, hrest⟩
    obtain ⟨rfl, -⟩ := bufPrint_eq_ok_iff.mp hprint
    split at hrest
    · cases hrest
    · next hroom =>
        cases hrest
        exact ⟨List.append_assoc .., not_lt.mp hroom⟩
  · rintro ⟨rfl, hroom⟩
    refine ⟨control, bufPrint_eq_ok_iff.mpr ⟨rfl, by omega⟩, ?_⟩
    rw [if_neg (not_lt.mpr hroom), List.append_assoc]

theorem validateSubject_bind_eq_ok_iff {output : Bytes} {next : Except ProtocolError Bytes} :
    (validateSubject subject >>= fun _ => next) = .ok output ↔ IsField subject ∧ next = .ok output := by
  rw [Fallible.bind_eq_ok, ← validateSubject_eq_ok_iff]
  exact ⟨fun ⟨_, hvalid, hnext⟩ => ⟨hvalid, hnext⟩, fun ⟨hvalid, hnext⟩ => ⟨(), hvalid, hnext⟩⟩

theorem encodeSub_eq_ok_iff {sid output : Bytes} :
    encodeSub size subject sid = .ok output ↔
      IsField subject ∧ output = (Request.sub subject sid).bytes ∧
        (Request.sub subject sid).bytes.length ≤ size := by
  rw [encodeSub, validateSubject_bind_eq_ok_iff, bufPrint_eq_ok_iff, Request.bytes_eq]

theorem encodeUnsub_eq_ok_iff {sid output : Bytes} {maxMessages : Option UInt32} :
    encodeUnsub size sid maxMessages = .ok output ↔
      output = (Request.unsub sid maxMessages).bytes ∧
        (Request.unsub sid maxMessages).bytes.length ≤ size := by
  cases maxMessages with
  | none => rw [encodeUnsub, bufPrint_eq_ok_iff, Request.bytes_eq]
  | some max => rw [encodeUnsub, bufPrint_eq_ok_iff, Request.bytes_eq]

theorem encodePub_eq_ok_iff {payload output : Bytes} :
    encodePub size subject replyTo payload = .ok output ↔
      IsField subject ∧ output = (Request.pub subject replyTo payload).bytes ∧
        (Request.pub subject replyTo payload).bytes.length ≤ size := by
  rw [encodePub, validateSubject_bind_eq_ok_iff]
  refine and_congr_right fun _ => ?_
  cases replyTo with
  | none => rw [printBlock_eq_ok_iff, Request.bytes_eq]
  | some reply => rw [printBlock_eq_ok_iff, Request.bytes_eq]

theorem encodeHpub_eq_ok_iff {headerLines payload output : Bytes} :
    encodeHpub size subject replyTo headerLines payload = .ok output ↔
      IsField subject ∧ (headerBlock headerLines).length ≤ 2048 ∧
        output = (Request.hpub subject replyTo headerLines payload).bytes ∧
        (Request.hpub subject replyTo headerLines payload).bytes.length ≤ size := by
  rw [encodeHpub, validateSubject_bind_eq_ok_iff]
  refine and_congr_right fun _ => ?_
  have hframe : ∀ control,
      (bufPrint size control >>= fun printed =>
        if size < printed.length + ((headerBlock headerLines).length + payload.length) + 2 then
          .error .bufferTooSmall
        else .ok (printed ++ headerBlock headerLines ++ payload ++ crlf)) = .ok output ↔
      output = control ++ (headerBlock headerLines ++ payload ++ crlf) ∧
        (control ++ (headerBlock headerLines ++ payload ++ crlf)).length ≤ size := by
    intro control
    have hprint := @printBlock_eq_ok_iff size control (headerBlock headerLines ++ payload) output
    simpa only [List.length_append, List.append_assoc] using hprint
  have hblock : ∀ next : Bytes → Except ProtocolError Bytes,
      (bufPrint 2048 (headerBlock headerLines) >>= next) = .ok output ↔
        (headerBlock headerLines).length ≤ 2048 ∧ next (headerBlock headerLines) = .ok output := by
    intro next
    rw [Fallible.bind_eq_ok]
    constructor
    · rintro ⟨headers, hprint, hnext⟩
      obtain ⟨rfl, hfits⟩ := bufPrint_eq_ok_iff.mp hprint
      exact ⟨hfits, hnext⟩
    · rintro ⟨hfits, hnext⟩
      exact ⟨_, bufPrint_eq_ok_iff.mpr ⟨rfl, hfits⟩, hnext⟩
  rw [hblock]
  refine and_congr_right fun _ => ?_
  cases replyTo with
  | none =>
      rw [Request.bytes_eq]
      exact hframe _
  | some reply =>
      rw [Request.bytes_eq]
      exact hframe _

variable {request : Request}

/-- What an encoder returns, if it does. -/
theorem Request.encode_eq_ok {output : Bytes} (h : request.encode size = .ok output) :
    output = request.bytes ∧ ∀ subject ∈ request.subject?, IsField subject := by
  cases request with
  | sub subject sid =>
      obtain ⟨hfield, heq, -⟩ := encodeSub_eq_ok_iff.mp h
      exact ⟨heq, by simpa [subject?] using hfield⟩
  | unsub sid maxMessages =>
      obtain ⟨heq, -⟩ := encodeUnsub_eq_ok_iff.mp h
      exact ⟨heq, by simp [subject?]⟩
  | pub subject replyTo payload =>
      obtain ⟨hfield, heq, -⟩ := encodePub_eq_ok_iff.mp h
      exact ⟨heq, by simpa [subject?] using hfield⟩
  | hpub subject replyTo headerLines payload =>
      obtain ⟨hfield, -, heq, -⟩ := encodeHpub_eq_ok_iff.mp h
      exact ⟨heq, by simpa [subject?] using hfield⟩

/-! ## Reading a call's bytes -/

theorem readBlock_append (text rest : Bytes) :
    readBlock text.length (text ++ (crlf ++ rest)) = some (text, rest) := by
  rw [readBlock, if_neg (by simp), List.drop_left, List.take_left, Format.strip_append]
  rfl

/-- The words and the body of a call are those of its command. -/
theorem readCommand_words (request : Request) :
    readCommand request.body (request.verb :: request.words) = some (request.command, []) := by
  have hnumber : ∀ value, readNumber (Numeral.digits 10 value) = some value :=
    Numeral.readPlain_digits (by decide) (by decide)
  cases request with
  | sub subject sid => rfl
  | unsub sid maxMessages =>
      cases maxMessages with
      | none => rfl
      | some max =>
          show ((readNumber (Numeral.digits 10 max.toNat)).map fun count => _) = _
          rw [hnumber]
          rfl
  | pub subject replyTo payload =>
      have hbody : readPubBody subject replyTo (Numeral.digits 10 payload.length) (payload ++ crlf) =
          some (.pub subject replyTo payload, []) := by
        have hblock := readBlock_append payload []
        rw [List.append_nil] at hblock
        rw [readPubBody, hnumber, Option.bind_some, hblock]
        rfl
      cases replyTo with
      | none => exact hbody
      | some reply => exact hbody
  | hpub subject replyTo headerLines payload =>
      have hbody : readHpubBody subject replyTo
          (Numeral.digits 10 (headerBlock headerLines).length)
          (Numeral.digits 10 ((headerBlock headerLines).length + payload.length))
          (headerBlock headerLines ++ payload ++ crlf) =
          some (.hpub subject replyTo (headerBlock headerLines) payload, []) := by
        have hblock := readBlock_append (headerBlock headerLines ++ payload) []
        rw [List.append_nil, List.length_append] at hblock
        rw [readHpubBody, hnumber, hnumber, Option.bind_some, Option.bind_some, if_neg (by omega), hblock,
          Option.map_some]
        dsimp only
        rw [List.take_left, List.drop_left]
      cases replyTo with
      | none => exact hbody
      | some reply => exact hbody

theorem Request.isArgument_words (hsubject : ∀ subject ∈ request.subject?, IsField subject)
    (hunchecked : ∀ text ∈ request.unchecked, IsArgument text) :
    ∀ word ∈ request.words, IsArgument word := by
  intro word hword
  rw [words, List.mem_append, List.mem_append] at hword
  rcases hword with (hmem | hmem) | hmem
  · exact (hsubject word (Option.mem_toList.mp hmem)).isArgument
  · exact hunchecked word hmem
  · obtain ⟨value, -, rfl⟩ := List.mem_map.mp hmem
    exact (isField_digits value).isArgument

theorem Request.isArgument_verb (request : Request) : IsArgument request.verb := by
  have hverbs : ∀ text ∈ [ascii "SUB", ascii "UNSUB", ascii "PUB", ascii "HPUB"],
      text ≠ [] ∧ space ∉ text ∧ ¬PairLines.HasPair 13 10 text := by decide +kernel
  have hverb : request.verb ∈ [ascii "SUB", ascii "UNSUB", ascii "PUB", ascii "HPUB"] := by
    cases request <;> simp [verb]
  obtain ⟨hne, hspace, hpair⟩ := hverbs _ hverb
  exact ⟨⟨hne, hspace⟩, hpair⟩

/-- A line of arguments is read back. -/
theorem tokenizeScalar_line {verb : Bytes} {words : List Bytes} (hverb : IsArgument verb)
    (hwords : ∀ word ∈ words, IsArgument word) :
    Text.tokenizeScalar space (verb ++ Text.spaced space [] words) = verb :: words := by
  cases words with
  | nil => rw [Text.spaced, List.append_nil, Text.tokenizeScalar_token hverb.isToken]
  | cons word rest =>
      have htokens := Text.tokenizeScalar_spaced (fun text hmem => (hwords text hmem).isToken) []
      rw [Text.spaced, Text.tokenizeScalar_cons_self] at htokens
      rw [Text.spaced, Text.tokenizeScalar_token_append hverb.isToken, htokens]

/-- **What a call is for is what is read**, if its words are arguments. -/
theorem parseCommand_bytes (hwords : ∀ word ∈ request.words, IsArgument word) :
    parseCommand request.bytes = some (request.command, []) := by
  have hline : ¬PairLines.HasPair 13 10 (request.verb ++ Text.spaced space [] request.words) :=
    not_hasPair_spaced (fun word hword => (hwords word hword).noLineEnd) request.isArgument_verb.noLineEnd
  have hcut : PairLines.cut 13 10 request.bytes =
      some (request.verb ++ Text.spaced space [] request.words, request.body) := by
    have hsplit : request.bytes =
        request.verb ++ Text.spaced space [] request.words ++ 13 :: 10 :: request.body := by
      simp [Request.bytes, crlf]
    rw [hsplit]
    exact PairLines.cut_append (by decide) hline _
  rw [parseCommand, hcut, Option.bind_some]
  dsimp only
  rw [tokenizeScalar_line request.isArgument_verb hwords, readCommand_words]

/-- The texts in a command that come from its line. -/
def Command.texts : Command → List Bytes
  | .sub subject queue sid => subject :: sid :: queue.toList
  | .unsub sid _ => [sid]
  | .pub subject replyTo _ => subject :: replyTo.toList
  | .hpub subject replyTo _ _ => subject :: replyTo.toList

section Texts

variable {arguments tokens : List Bytes} {rest final : Bytes} {command : Command}

theorem subset_of_readSub (h : readSub rest arguments = some (command, final)) :
    command.texts ⊆ arguments := by
  unfold readSub at h
  split at h
  · cases h
    simp [Command.texts]
  · cases h
    simp [Command.texts]
  · cases h

theorem subset_of_readUnsub (h : readUnsub rest arguments = some (command, final)) :
    command.texts ⊆ arguments := by
  unfold readUnsub at h
  split at h
  · cases h
    simp [Command.texts]
  · obtain ⟨count, -, heq⟩ := Option.map_eq_some_iff.mp h
    cases heq
    simp [Command.texts]
  · cases h

theorem texts_of_readPubBody {length : Bytes}
    (h : readPubBody subject replyTo length rest = some (command, final)) :
    command.texts = subject :: replyTo.toList := by
  obtain ⟨count, -, hblock⟩ := Option.bind_eq_some_iff.mp h
  obtain ⟨block, -, heq⟩ := Option.map_eq_some_iff.mp hblock
  cases heq
  rfl

theorem subset_of_readPub (h : readPub rest arguments = some (command, final)) :
    command.texts ⊆ arguments := by
  unfold readPub at h
  split at h
  · rw [texts_of_readPubBody h]
    simp
  · rw [texts_of_readPubBody h]
    simp
  · cases h

theorem texts_of_readHpubBody {header total : Bytes}
    (h : readHpubBody subject replyTo header total rest = some (command, final)) :
    command.texts = subject :: replyTo.toList := by
  obtain ⟨headerLength, -, hrest⟩ := Option.bind_eq_some_iff.mp h
  obtain ⟨totalLength, -, hblock⟩ := Option.bind_eq_some_iff.mp hrest
  split at hblock
  · cases hblock
  · obtain ⟨block, -, heq⟩ := Option.map_eq_some_iff.mp hblock
    cases heq
    rfl

theorem subset_of_readHpub (h : readHpub rest arguments = some (command, final)) :
    command.texts ⊆ arguments := by
  unfold readHpub at h
  split at h
  · rw [texts_of_readHpubBody h]
    simp
  · rw [texts_of_readHpubBody h]
    simp
  · cases h

/-- The texts of a command are tokens of its line. -/
theorem subset_of_readCommand (h : readCommand rest tokens = some (command, final)) :
    command.texts ⊆ tokens := by
  unfold readCommand at h
  split at h
  · cases h
  · next verb arguments =>
      refine List.Subset.trans ?_ (List.subset_cons_self verb arguments)
      split_ifs at h
      · exact subset_of_readSub h
      · exact subset_of_readUnsub h
      · exact subset_of_readPub h
      · exact subset_of_readHpub h

end Texts

/-- What is read from a line consists of arguments. -/
theorem isArgument_of_parseCommand {input rest : Bytes} {command : Command}
    (h : parseCommand input = some (command, rest)) : ∀ text ∈ command.texts, IsArgument text := by
  obtain ⟨⟨line, final⟩, hcut, hread⟩ := Option.bind_eq_some_iff.mp h
  obtain ⟨-, hline⟩ := PairLines.cut_eq_some hcut
  intro text htext
  obtain ⟨htoken, hpart⟩ := Text.isToken_of_mem_tokenizeScalar (subset_of_readCommand hread htext)
  exact ⟨htoken, fun hpair => hline (hpair.of_infix hpart)⟩

theorem Request.unchecked_subset (request : Request) :
    request.unchecked ⊆ request.command.texts := by
  cases request <;> simp [unchecked, command, Command.texts]

/-- **One command per call.** Whatever an encoder returns is read as the command that the call was
made for, with nothing left over, exactly if each reply subject and subscription id is a single
token: not empty, without a space and without `\r\n`. -/
theorem one_command_iff (size : Nat) (request : Request) (output : Bytes)
    (h : request.encode size = .ok output) :
    parseCommand output = some (request.command, []) ↔
      ∀ text ∈ request.unchecked, IsArgument text := by
  obtain ⟨rfl, hsubject⟩ := Request.encode_eq_ok h
  constructor
  · intro hparse text hmem
    exact isArgument_of_parseCommand hparse text (request.unchecked_subset hmem)
  · intro hunchecked
    exact parseCommand_bytes (Request.isArgument_words hsubject hunchecked)

/-- A publication with a reply subject. -/
def askInvoice : Request :=
  .pub (ascii "Financial.createInvoice.ok") (some (ascii "_INBOX.42")) (ascii "abc")

theorem one_command_askInvoice :
    parseCommand (ascii "PUB Financial.createInvoice.ok _INBOX.42 3\r\nabc\r\n") =
      some (askInvoice.command, []) := by
  refine (one_command_iff 64 askInvoice _ (by decide +kernel)).mpr ?_
  intro text htext
  obtain rfl : text = ascii "_INBOX.42" := by simpa [askInvoice, Request.unchecked] using htext
  have hplain : ascii "_INBOX.42" ≠ [] ∧ space ∉ ascii "_INBOX.42" ∧
      ¬PairLines.HasPair 13 10 (ascii "_INBOX.42") := by decide +kernel
  exact ⟨⟨hplain.1, hplain.2.1⟩, hplain.2.2⟩

/-- A subscription id with a line end and a second command in it. -/
def strayPublication : Request :=
  .sub (ascii "a") (ascii "1\r\nPUB b 0\r\n")

/-- The encoder accepts the subscription id, and the server reads two commands: the subscription
and a publication that nobody asked for. -/
theorem not_one_command_strayPublication :
    strayPublication.encode 64 = .ok (ascii "SUB a 1\r\nPUB b 0\r\n\r\n") ∧
      parseCommand (ascii "SUB a 1\r\nPUB b 0\r\n\r\n") ≠ some (strayPublication.command, []) ∧
      parseCommand (ascii "SUB a 1\r\nPUB b 0\r\n\r\n") =
        some (.sub (ascii "a") none (ascii "1"), ascii "PUB b 0\r\n\r\n") ∧
      parseCommand (ascii "PUB b 0\r\n\r\n") = some (.pub (ascii "b") none [], []) := by
  decide +kernel

end Ubiq.Nats
