import Ubiq.Core.Wire

/-!
# Frames of the wire format

A frame is a header of thirteen integers and seven fields. `encode` writes the frame of an
envelope, with zeros in the reserved bytes. `decode` accepts exactly the well-formed
frames, and gives back the envelope whose frame it is, whatever the reserved bytes are.
-/

namespace Ubiq.Core.Wire

open Foundation
open Message (EventState)

/-- All fields of an envelope, in the order of the frame. -/
def fields (envelope : Envelope) : List Bytes :=
  metadata envelope ++ [envelope.payload]

/-- The integers of the header with their widths. -/
def headerOf (reserved : Nat) (envelope : Envelope) : List (Nat × Nat) :=
  [(4, magic), (2, version), (1, (stateByte envelope.event.state).toNat),
    (1, (guaranteeByte envelope.guarantee).toNat), (8, envelope.createdAtMs.toNat),
    (2, envelope.id.length), (2, envelope.event.name.length), (2, envelope.correlationId.length),
    (2, envelope.causationId.length), (2, envelope.idempotencyKey.length),
    (2, envelope.schemaId.length), (4, envelope.payload.length), (8, reserved)]

/-- The frame of an envelope with the given reserved bytes. -/
def frameWith (reserved : Nat) (envelope : Envelope) : Bytes :=
  BigEndian.writeInts (headerOf reserved envelope) ++ (fields envelope).flatten

/-- The length of the frame of an envelope. -/
def frameLength (envelope : Envelope) : Nat :=
  fixedHeaderLen + ((fields envelope).map List.length).sum

/-- The field lengths fit the header. -/
def Fits (envelope : Envelope) : Prop :=
  (∀ field ∈ metadata envelope, field.length ≤ 65535) ∧ envelope.payload.length ≤ 4294967295

instance (envelope : Envelope) : Decidable (Fits envelope) :=
  inferInstanceAs (Decidable ((∀ field ∈ _, _) ∧ _))

theorem length_frameWith (reserved : Nat) (envelope : Envelope) :
    (frameWith reserved envelope).length = frameLength envelope := by
  rw [frameWith, List.length_append, BigEndian.length_writeInts, List.length_flatten]
  rfl

variable {envelope : Envelope} {frame : Bytes} {byte : UInt8}

theorem Fits.lengths (h : Fits envelope) :
    envelope.id.length ≤ 65535 ∧ envelope.event.name.length ≤ 65535 ∧
      envelope.correlationId.length ≤ 65535 ∧ envelope.causationId.length ≤ 65535 ∧
      envelope.idempotencyKey.length ≤ 65535 ∧ envelope.schemaId.length ≤ 65535 ∧
      envelope.payload.length ≤ 4294967295 := by
  obtain ⟨hmetadata, hpayload⟩ := h
  simp only [metadata, List.forall_mem_cons] at hmetadata
  obtain ⟨hid, hevent, hcorrelation, hcausation, hidempotency, hschema, -⟩ := hmetadata
  exact ⟨hid, hevent, hcorrelation, hcausation, hidempotency, hschema, hpayload⟩

theorem frameLength_eq (envelope : Envelope) :
    frameLength envelope = 40 + (envelope.id.length + (envelope.event.name.length +
      (envelope.correlationId.length + (envelope.causationId.length +
        (envelope.idempotencyKey.length + (envelope.schemaId.length +
          envelope.payload.length)))))) := by
  simp [frameLength, fields, metadata, fixedHeaderLen]

theorem Fits.frameLength_lt (h : Fits envelope) :
    frameLength envelope < 2 ^ 64 := by
  have := h.lengths
  rw [frameLength_eq]
  omega

theorem Fits.headerOf_fits (h : Fits envelope) {reserved : Nat} (hreserved : reserved < 256 ^ 8) :
    ∀ entry ∈ headerOf reserved envelope, entry.2 < 256 ^ entry.1 := by
  have hlengths := h.lengths
  have hstate := (stateByte envelope.event.state).toNat_lt
  have hguarantee := (guaranteeByte envelope.guarantee).toNat_lt
  have hcreated := envelope.createdAtMs.toNat_lt
  simp only [headerOf, List.forall_mem_cons, magic, version]
  norm_num
  omega

/-! ## Encoding -/

/-- Writes one after the other. -/
def putAll (out : Bytes) (cursor : Nat) : List Bytes → Option (Bytes × Nat)
  | [] => some (out, cursor)
  | bytes :: rest => do
      let (out, cursor) ← put out cursor bytes
      putAll out cursor rest

theorem putAll_append {done rest : Bytes} {pieces : List Bytes}
    (hfits : pieces.flatten.length ≤ rest.length)
    (hsmall : done.length + pieces.flatten.length < 2 ^ 64) :
    putAll (done ++ rest) done.length pieces =
      some (done ++ pieces.flatten ++ rest.drop pieces.flatten.length,
        (done ++ pieces.flatten).length) := by
  induction pieces generalizing done rest with
  | nil => simp [putAll]
  | cons bytes pieces ih =>
      simp only [List.flatten_cons, List.length_append] at hfits hsmall ⊢
      rw [putAll, put_append (by omega) (by omega)]
      have hlater := @ih (done ++ bytes) (rest.drop bytes.length)
        (by rw [List.length_drop]; omega) (by rw [List.length_append]; omega)
      show putAll (done ++ bytes ++ rest.drop bytes.length) (done ++ bytes).length pieces = _
      rw [hlater, List.drop_drop]
      simp only [List.append_assoc, List.length_append]

/-- The pieces that `encode` writes. -/
def pieces (envelope : Envelope) : List Bytes :=
  (headerOf 0 envelope).map (fun entry => BigEndian.bytesOf entry.1 entry.2) ++ fields envelope

theorem flatten_pieces (envelope : Envelope) :
    (pieces envelope).flatten = frameWith 0 envelope := by
  have hheader : ∀ header : List (Nat × Nat),
      (header.map fun entry => BigEndian.bytesOf entry.1 entry.2).flatten =
        BigEndian.writeInts header := by
    intro header
    induction header with
    | nil => rfl
    | cons entry rest ih => rw [List.map_cons, List.flatten_cons, ih]; rfl
  rw [pieces, List.flatten_append, hheader, frameWith]

theorem bytesOf_one (byte : UInt8) : BigEndian.bytesOf 1 byte.toNat = [byte] := by
  have h := BigEndian.bytesOf_valueOf [byte]
  simpa [BigEndian.valueOf] using h

theorem write_eq_putAll (h : Fits envelope) (out : Bytes) :
    write envelope out = putAll out 0 (pieces envelope) := by
  have hcast : ∀ {width value : Nat}, value < 256 ^ width → intCast width value = some value :=
    fun h => if_pos h
  obtain ⟨hid, hevent, hcorrelation, hcausation, hidempotency, hschema, hpayload⟩ := h.lengths
  simp only [write, hcast (show envelope.id.length < 256 ^ 2 by omega),
    hcast (show envelope.event.name.length < 256 ^ 2 by omega),
    hcast (show envelope.correlationId.length < 256 ^ 2 by omega),
    hcast (show envelope.causationId.length < 256 ^ 2 by omega),
    hcast (show envelope.idempotencyKey.length < 256 ^ 2 by omega),
    hcast (show envelope.schemaId.length < 256 ^ 2 by omega),
    hcast (show envelope.payload.length < 256 ^ 4 by omega), Option.bind_eq_bind, Option.bind_some,
    pieces, headerOf, fields, metadata, List.map_cons, List.map_nil, List.cons_append,
    List.nil_append, putAll, bytesOf_one, putInt, copyField, Prod.mk.eta, Option.bind_fun_some]

/-- `encode` refuses fields that the header cannot describe. -/
theorem encode_of_not_fits (h : ¬Fits envelope) (out : Bytes) :
    encode envelope out = throw .fieldTooLarge := by
  unfold encode
  by_cases hmetadata : ∃ field ∈ metadata envelope, field.length > 65535
  · rw [failIf_bind_of hmetadata]
  · have hpayload : envelope.payload.length > 4294967295 := by
      by_contra hsmall
      exact h ⟨fun field hfield => not_lt.mp fun hlarge => hmetadata ⟨field, hfield, hlarge⟩,
        not_lt.mp hsmall⟩
    rw [failIf_bind_of_not hmetadata, failIf_bind_of hpayload]

/-- **Encoding writes the frame of the envelope**, if the buffer is large enough. -/
theorem encode_eq (h : Fits envelope) (out : Bytes) :
    encode envelope out =
      if out.length < frameLength envelope then throw .bufferTooSmall
      else pure { buffer := frameWith 0 envelope ++ out.drop (frameLength envelope)
                  frame := frameWith 0 envelope } := by
  have hmetadata : ¬∃ field ∈ metadata envelope, field.length > 65535 := by
    rintro ⟨field, hfield, hlarge⟩
    exact absurd (h.1 field hfield) (not_le.mpr hlarge)
  have hrequired : required envelope = some (frameLength envelope) := sum_eq h.frameLength_lt
  rw [encode, failIf_bind_of_not hmetadata, failIf_bind_of_not (not_lt.mpr h.2), hrequired,
    lift_some_bind]
  split
  · next hsmall => rw [failIf_bind_of hsmall]
  · next hlarge =>
      have hlength : (pieces envelope).flatten.length = frameLength envelope := by
        rw [flatten_pieces, length_frameWith]
      have hwrite : write envelope out = some (frameWith 0 envelope ++
          out.drop (frameLength envelope), frameLength envelope) := by
        have hput := @putAll_append [] out (pieces envelope) (by omega)
          (by have := h.frameLength_lt; simp only [List.length_nil]; omega)
        rw [hlength, flatten_pieces] at hput
        simpa [write_eq_putAll h, length_frameWith] using hput
      have hslice : slice (frameWith 0 envelope ++ out.drop (frameLength envelope)) 0
          (frameLength envelope) = some (frameWith 0 envelope) := by
        rw [slice_eq (Nat.zero_le _) (by rw [List.length_append, length_frameWith]; omega),
          List.drop_zero, Nat.sub_zero, List.take_left' (length_frameWith 0 envelope)]
      rw [failIf_bind_of_not hlarge, hwrite, lift_some_bind]
      simp only [hslice, lift_some_bind]

/-! ## Decoding -/

/-- The widths of the header. -/
def headerWidths : List Nat := [4, 2, 1, 1, 8, 2, 2, 2, 2, 2, 2, 4, 8]

/-- The field lengths that a frame declares. -/
def lengthsAt (frame : Bytes) : List Nat :=
  [intAt frame 16 2, intAt frame 18 2, intAt frame 20 2, intAt frame 22 2, intAt frame 24 2,
    intAt frame 26 2, intAt frame 28 4]

/-- The event-name field. -/
def eventField (frame : Bytes) : Bytes :=
  (frame.drop (fixedHeaderLen + intAt frame 16 2)).take (intAt frame 18 2)

/-- The well-formed frames. -/
structure WellFormed (frame : Bytes) : Prop where
  length : fixedHeaderLen ≤ frame.length
  magic : intAt frame 0 4 = magic
  version : intAt frame 4 2 = version
  state : frame.getD 6 0 ≤ 2
  guarantee : frame.getD 7 0 ≤ 2
  lengths : fixedHeaderLen + (lengthsAt frame).sum = frame.length
  event : ∃ event, CanonicalEvent.parse (eventField frame) = .ok event ∧
    stateByte event.state = frame.getD 6 0

theorem readInts_header (frame : Bytes) :
    BigEndian.readInts headerWidths frame =
      ([intAt frame 0 4, intAt frame 4 2, intAt frame 6 1, intAt frame 7 1, intAt frame 8 8] ++
        lengthsAt frame ++ [intAt frame 32 8], frame.drop 40) := by
  simp [BigEndian.readInts, headerWidths, intAt, lengthsAt, List.drop_drop]

theorem intAt_lt (frame : Bytes) (offset width : Nat) : intAt frame offset width < 256 ^ width := by
  refine lt_of_lt_of_le (BigEndian.valueOf_lt _) (Nat.pow_le_pow_right (by decide) ?_)
  rw [List.length_take]
  omega

theorem intAt_one {offset : Nat} (h : offset < frame.length) :
    intAt frame offset 1 = (frame.getD offset 0).toNat := by
  have htake : (frame.drop offset).take 1 = [frame.getD offset 0] := by
    rw [List.drop_eq_getElem_cons h, List.take_succ_cons, List.take_zero,
      List.getD_eq_getElem?_getD, List.getElem?_eq_getElem h, Option.getD_some]
  simp [intAt, htake, BigEndian.valueOf]

theorem stateOfByte_eq_some_iff {state : EventState} :
    stateOfByte byte = some state ↔ byte = stateByte state := by
  unfold stateOfByte
  split <;> cases state <;> simp_all [stateByte]

theorem guaranteeOfByte_eq_some_iff {guarantee : DeliveryGuarantee} :
    guaranteeOfByte byte = some guarantee ↔ byte = guaranteeByte guarantee := by
  unfold guaranteeOfByte
  split <;> cases guarantee <;> simp_all [guaranteeByte]

/-- The envelope in a frame. -/
def envelopeAt (frame : Bytes) (event : CanonicalEvent) (guarantee : DeliveryGuarantee) :
    Envelope :=
  let stop := fun count => fixedHeaderLen + ((lengthsAt frame).take count).sum
  let field := fun index => (frame.drop (stop index)).take ((lengthsAt frame).getD index 0)
  { id := field 0, event := event, correlationId := field 2, causationId := field 3
    idempotencyKey := field 4, schemaId := field 5, payload := field 6, guarantee := guarantee
    createdAtMs := UInt64.ofNat (intAt frame 8 8) }

/-- The reads of the header. -/
theorem decode_eq (h : fixedHeaderLen ≤ frame.length) :
    decode frame = do
      failIf (intAt frame 0 4 ≠ magic) .invalidMagic
      failIf (intAt frame 4 2 ≠ version) .unsupportedVersion
      let state ← orFail .invalidState (stateOfByte (frame.getD 6 0))
      let guarantee ← orFail .invalidFrame (guaranteeOfByte (frame.getD 7 0))
      failIf (fixedHeaderLen + (lengthsAt frame).sum ≠ frame.length) .invalidFrame
      let event ← parseEvent (eventField frame)
      failIf (event.state ≠ state) .invalidState
      return envelopeAt frame event guarantee := by
  unfold fixedHeaderLen at h
  have hlong : ¬frame.length < fixedHeaderLen := not_lt.mpr h
  rw [decode, failIf_bind_of_not hlong]
  simp (disch := omega) only [takeInt_eq, takeByte_eq, lift_some_bind, Nat.reduceAdd]
  -- the declared lengths cannot overflow a `usize`
  have hid := intAt_lt frame 16 2
  have hevent := intAt_lt frame 18 2
  have hcorrelation := intAt_lt frame 20 2
  have hcausation := intAt_lt frame 22 2
  have hidempotency := intAt_lt frame 24 2
  have hschema := intAt_lt frame 26 2
  have hpayload := intAt_lt frame 28 4
  have hsum : sum (intAt frame 16 2) [intAt frame 18 2, intAt frame 20 2, intAt frame 22 2,
      intAt frame 24 2, intAt frame 26 2, intAt frame 28 4] = some (lengthsAt frame).sum := by
    refine (sum_eq ?_).trans ?_
    · simp only [List.sum_cons, List.sum_nil]
      omega
    · rfl
  have htotal : (lengthsAt frame).sum < 2 ^ 63 := by
    simp only [lengthsAt, List.sum_cons, List.sum_nil]
    omega
  have hadd : add 40 (lengthsAt frame).sum = some (40 + (lengthsAt frame).sum) :=
    add_eq (by omega)
  simp only [hsum, hadd, lift_some_bind]
  by_cases hexact : fixedHeaderLen + (lengthsAt frame).sum = frame.length
  · have hstop : 40 + (lengthsAt frame).sum = frame.length := hexact
    simp only [failIf_bind_of_not (not_not.mpr hexact), failIf_bind_of_not (not_not.mpr hstop)]
    simp only [lengthsAt, List.sum_cons, List.sum_nil] at hstop
    simp (disch := omega) only [takeField_eq, lift_some_bind]
    simp only [envelopeAt, eventField, fixedHeaderLen, lengthsAt, List.take_succ_cons,
      List.take_zero, List.sum_cons, List.sum_nil, List.getD_cons_zero, List.getD_cons_succ,
      Nat.add_zero, Nat.add_assoc]
  · have hstop : ¬40 + (lengthsAt frame).sum = frame.length := hexact
    simp only [failIf_bind_of hexact, failIf_bind_of hstop]

theorem byte_le_two_iff : byte ≤ 2 ↔ byte = 0 ∨ byte = 1 ∨ byte = 2 := by
  simp only [UInt8.le_iff_toNat_le, ← UInt8.toNat_inj]
  simp only [UInt8.toNat_ofNat]
  omega

theorem guaranteeOfByte_of_le (h : byte ≤ 2) :
    ∃ guarantee, guaranteeOfByte byte = some guarantee := by
  rcases byte_le_two_iff.mp h with rfl | rfl | rfl <;> exact ⟨_, rfl⟩

theorem stateByte_le (state : EventState) : stateByte state ≤ 2 := by
  cases state <;> decide

theorem guaranteeByte_le (guarantee : DeliveryGuarantee) : guaranteeByte guarantee ≤ 2 := by
  cases guarantee <;> decide

theorem parseEvent_bind {β : Type} {name : Bytes} {event : CanonicalEvent}
    (h : CanonicalEvent.parse name = .ok event) (next : CanonicalEvent → Checked β) :
    (parseEvent name >>= next) = next event := by
  have hpure : parseEvent name = pure event := by
    unfold parseEvent
    rw [h]
  rw [hpure, pure_bind]

/-- What a well-formed frame is decoded to. -/
theorem decode_of_wellFormed (h : WellFormed frame) :
    ∃ event guarantee, CanonicalEvent.parse (eventField frame) = .ok event ∧
      frame.getD 6 0 = stateByte event.state ∧ frame.getD 7 0 = guaranteeByte guarantee ∧
      decode frame = pure (envelopeAt frame event guarantee) := by
  obtain ⟨event, hevent, hstate⟩ := h.event
  obtain ⟨guarantee, hguarantee⟩ := guaranteeOfByte_of_le h.guarantee
  refine ⟨event, guarantee, hevent, hstate.symm, guaranteeOfByte_eq_some_iff.mp hguarantee, ?_⟩
  rw [decode_eq h.length, failIf_bind_of_not (not_not.mpr h.magic),
    failIf_bind_of_not (not_not.mpr h.version), stateOfByte_eq_some_iff.mpr hstate.symm,
    orFail_some_bind, hguarantee, orFail_some_bind, failIf_bind_of_not (not_not.mpr h.lengths),
    parseEvent_bind hevent, failIf_bind_of_not (not_not.mpr rfl)]

/-- Every other frame is refused with an error. -/
theorem decode_of_not_wellFormed (h : ¬WellFormed frame) :
    ∃ err, decode frame = throw err := by
  by_cases hlength : fixedHeaderLen ≤ frame.length
  swap
  · exact ⟨_, failIf_bind_of (not_le.mp hlength)⟩
  rw [decode_eq hlength]
  by_cases hmagic : intAt frame 0 4 = magic
  swap
  · exact ⟨_, failIf_bind_of hmagic⟩
  rw [failIf_bind_of_not (not_not.mpr hmagic)]
  by_cases hversion : intAt frame 4 2 = version
  swap
  · exact ⟨_, failIf_bind_of hversion⟩
  rw [failIf_bind_of_not (not_not.mpr hversion)]
  cases hstate : stateOfByte (frame.getD 6 0) with
  | none => exact ⟨_, orFail_none_bind _ _⟩
  | some state =>
      rw [orFail_some_bind]
      cases hguarantee : guaranteeOfByte (frame.getD 7 0) with
      | none => exact ⟨_, orFail_none_bind _ _⟩
      | some guarantee =>
          rw [orFail_some_bind]
          by_cases hlengths : fixedHeaderLen + (lengthsAt frame).sum = frame.length
          swap
          · exact ⟨_, failIf_bind_of hlengths⟩
          rw [failIf_bind_of_not (not_not.mpr hlengths)]
          cases hevent : CanonicalEvent.parse (eventField frame) with
          | error err =>
              refine ⟨.ofEventName err, ?_⟩
              rw [parseEvent, hevent]
              rfl
          | ok event =>
              rw [parseEvent_bind hevent]
              have hstateByte := stateOfByte_eq_some_iff.mp hstate
              have hguaranteeByte := guaranteeOfByte_eq_some_iff.mp hguarantee
              -- only the state can be wrong now
              refine ⟨_, failIf_bind_of fun heq => h ?_⟩
              exact ⟨hlength, hmagic, hversion, hstateByte ▸ stateByte_le state,
                hguaranteeByte ▸ guaranteeByte_le guarantee, hlengths, event, hevent,
                heq ▸ hstateByte.symm⟩

end Ubiq.Core.Wire
