import Ubiq.Core.WireFormat

/-!
# Round trips through the wire format

A well-formed frame is the frame of the envelope it is decoded to, up to the reserved
bytes, and the frame of an envelope is well formed and is decoded to that envelope.
-/

namespace Ubiq.Core.Wire

open Foundation
open Message (EventState)

/-! ## The envelope of a frame -/

variable {frame : Bytes} {event : CanonicalEvent} {envelope : Envelope}

/-- The fields of the decoded envelope are the pieces of the body. -/
theorem fields_envelopeAt (hname : event.name = eventField frame) (guarantee : DeliveryGuarantee) :
    fields (envelopeAt frame event guarantee) =
      BigEndian.splitFields (lengthsAt frame) (frame.drop fixedHeaderLen) := by
  simp only [fields, metadata, envelopeAt, hname, eventField, lengthsAt, BigEndian.splitFields,
    List.drop_drop, List.take_succ_cons, List.take_zero, List.sum_cons, List.sum_nil,
    List.getD_cons_zero, List.getD_cons_succ, Nat.add_zero, Nat.add_assoc, List.cons_append,
    List.nil_append]

/-- **A well-formed frame is the frame of its envelope**, with its own reserved bytes. -/
theorem frame_eq_of_wellFormed (h : WellFormed frame) {guarantee : DeliveryGuarantee}
    (hname : event.name = eventField frame) (hstate : frame.getD 6 0 = stateByte event.state)
    (hguarantee : frame.getD 7 0 = guaranteeByte guarantee) :
    Fits (envelopeAt frame event guarantee) ∧
      frame = frameWith (intAt frame 32 8) (envelopeAt frame event guarantee) := by
  have hlong : 40 ≤ frame.length := h.length
  have hbody : (lengthsAt frame).sum = (frame.drop fixedHeaderLen).length := by
    have := h.lengths
    rw [List.length_drop]
    omega
  have hfields := fields_envelopeAt hname guarantee
  have hlengths : (fields (envelopeAt frame event guarantee)).map List.length = lengthsAt frame := by
    rw [hfields, BigEndian.map_length_splitFields hbody.le]
  have hparts := hlengths
  simp only [fields, metadata, lengthsAt, List.cons_append, List.nil_append, List.map_cons,
    List.map_nil, List.cons.injEq, and_true] at hparts
  obtain ⟨hid, hevent, hcorrelation, hcausation, hidempotency, hschema, hpayload⟩ := hparts
  constructor
  · -- the declared lengths are integers of two and four bytes
    have := intAt_lt frame 16 2
    have := intAt_lt frame 18 2
    have := intAt_lt frame 20 2
    have := intAt_lt frame 22 2
    have := intAt_lt frame 24 2
    have := intAt_lt frame 26 2
    have := intAt_lt frame 28 4
    refine ⟨?_, by omega⟩
    simp only [metadata, List.forall_mem_cons]
    exact ⟨by omega, by omega, by omega, by omega, by omega, by omega, List.forall_mem_nil _⟩
  · have hheader : headerOf (intAt frame 32 8) (envelopeAt frame event guarantee) =
        headerWidths.zip (BigEndian.readInts headerWidths frame).1 := by
      have hcreated : (UInt64.ofNat (intAt frame 8 8)).toNat = intAt frame 8 8 :=
        UInt64.toNat_ofNat_of_lt' (intAt_lt frame 8 8)
      rw [readInts_header, headerOf, hid, hevent, hcorrelation, hcausation, hidempotency, hschema,
        hpayload]
      simp only [envelopeAt, hcreated, ← hstate, ← hguarantee, headerWidths, lengthsAt,
        intAt_one (show 6 < frame.length by omega), intAt_one (show 7 < frame.length by omega),
        h.magic, h.version, List.cons_append, List.nil_append, List.zip_cons_cons, List.zip_nil_right]
    have hread : (BigEndian.readInts headerWidths frame).2 = frame.drop fixedHeaderLen := by
      rw [readInts_header]
      rfl
    have hwidths : headerWidths.sum ≤ frame.length := hlong
    rw [frameWith, hheader, hfields, BigEndian.flatten_splitFields hbody, ← hread,
      BigEndian.writeInts_readInts hwidths]

/-! ## The frame of an envelope -/

/-- The second field of the body is the name of the event. -/
theorem name_eq_eventField
    (hsplit : BigEndian.splitFields (lengthsAt frame) (frame.drop fixedHeaderLen) =
      fields envelope) : envelope.event.name = eventField frame := by
  have hsecond := congrArg (List.getD · 1 []) hsplit
  simpa [BigEndian.splitFields, lengthsAt, fields, metadata, eventField, List.drop_drop]
    using hsecond.symm

/-- The envelope read from a frame is determined by its body and its time stamp. -/
theorem envelopeAt_eq_self
    (hsplit : BigEndian.splitFields (lengthsAt frame) (frame.drop fixedHeaderLen) =
      fields envelope) (hcreated : intAt frame 8 8 = envelope.createdAtMs.toNat) :
    envelopeAt frame envelope.event envelope.guarantee = envelope := by
  have hsame := (fields_envelopeAt (name_eq_eventField hsplit) envelope.guarantee).trans hsplit
  simp only [fields, metadata, List.cons_append, List.nil_append, List.cons.injEq, and_true] at hsame
  obtain ⟨hid, -, hcorrelation, hcausation, hidempotency, hschema, hpayload⟩ := hsame
  have htime : (envelopeAt frame envelope.event envelope.guarantee).createdAtMs =
      envelope.createdAtMs := by
    simp only [envelopeAt, hcreated, UInt64.ofNat_toNat]
  cases envelope with
  | mk id event correlationId causationId idempotencyKey schemaId payload guarantee createdAtMs =>
      rw [Envelope.mk.injEq]
      exact ⟨hid, rfl, hcorrelation, hcausation, hidempotency, hschema, hpayload, rfl, htime⟩

/-- **The frame of an envelope with a canonical event is well formed**, and its envelope is
the one it was made from. -/
theorem wellFormed_frameWith (h : Fits envelope)
    (hparse : CanonicalEvent.parse envelope.event.name = .ok envelope.event) {reserved : Nat}
    (hreserved : reserved < 256 ^ 8) :
    WellFormed (frameWith reserved envelope) ∧
      decode (frameWith reserved envelope) = pure envelope := by
  set frame := frameWith reserved envelope with hframe
  have hlength : frame.length = frameLength envelope := length_frameWith reserved envelope
  have hlong : 40 ≤ frame.length := by
    rw [hlength, frameLength_eq]
    omega
  have hread : BigEndian.readInts headerWidths frame =
      ((headerOf reserved envelope).map Prod.snd, (fields envelope).flatten) :=
    BigEndian.readInts_writeInts (h.headerOf_fits hreserved) _
  rw [readInts_header, Prod.mk.injEq] at hread
  obtain ⟨hints, hbody⟩ := hread
  have hlengths : lengthsAt frame = (fields envelope).map List.length := by
    simp only [headerOf, lengthsAt, List.map_cons, List.map_nil, List.cons_append, List.nil_append,
      List.cons.injEq, and_true] at hints
    simp only [lengthsAt, fields, metadata, hints, List.map_cons, List.map_nil, List.cons_append,
      List.nil_append]
  simp only [headerOf, lengthsAt, List.map_cons, List.map_nil, List.cons_append, List.nil_append,
    List.cons.injEq, and_true] at hints
  obtain ⟨hmagic, hversion, hstate, hguarantee, hcreated, -⟩ := hints
  rw [intAt_one (by omega)] at hstate hguarantee
  replace hstate := UInt8.toNat_inj.mp hstate
  replace hguarantee := UInt8.toNat_inj.mp hguarantee
  have hsplit : BigEndian.splitFields (lengthsAt frame) (frame.drop fixedHeaderLen) =
      fields envelope := by
    rw [hlengths, show frame.drop fixedHeaderLen = _ from hbody, BigEndian.splitFields_flatten]
  have hname : envelope.event.name = eventField frame := name_eq_eventField hsplit
  have hwell : WellFormed frame := by
    refine ⟨hlong, hmagic, hversion, ?_, ?_, ?_, envelope.event, by rw [← hname, hparse],
      hstate.symm⟩
    · rw [hstate]
      exact stateByte_le _
    · rw [hguarantee]
      exact guaranteeByte_le _
    · rw [hlengths, hlength]
      rfl
  refine ⟨hwell, ?_⟩
  obtain ⟨event, guarantee, hevent, -, hbyte, hdecode⟩ := decode_of_wellFormed hwell
  -- the event is determined by its name, and the fields by the body
  obtain rfl : envelope.event = event := by
    rw [← hname, hparse] at hevent
    exact Except.ok.inj hevent
  obtain rfl : envelope.guarantee = guarantee := by
    have hsome := guaranteeOfByte_eq_some_iff.mpr hbyte
    rw [guaranteeOfByte_eq_some_iff.mpr hguarantee] at hsome
    exact Option.some.inj hsome
  rw [hdecode, envelopeAt_eq_self hsplit hcreated]

/-! ## Encoding and decoding -/

/-- A parsed event parses from its own name. -/
theorem parse_name {name : Bytes} (h : CanonicalEvent.parse name = .ok event) :
    CanonicalEvent.parse event.name = .ok event := by
  obtain ⟨hname, -⟩ := parse_eq_ok_iff.mp h
  rw [hname, h]

/-- **Wire round trip.** `encode` fails with `BufferTooSmall` exactly when the buffer is
shorter than the frame; otherwise `decode` gives the envelope back. -/
theorem decode_encode (envelope : Envelope)
    (hevent : ∃ name, CanonicalEvent.parse name = .ok envelope.event) (hfits : Fits envelope)
    (out : Bytes) :
    (encode envelope out = throw .bufferTooSmall ↔ out.length < frameLength envelope) ∧
      (frameLength envelope ≤ out.length → ∃ encoded, encode envelope out = pure encoded ∧
        encoded.frame.length = frameLength envelope ∧ decode encoded.frame = pure envelope) := by
  obtain ⟨name, hname⟩ := hevent
  rw [encode_eq hfits]
  constructor
  · split
    · next hsmall => exact iff_of_true rfl hsmall
    · next hlarge =>
        refine iff_of_false (fun heq => ?_) hlarge
        cases heq
  · intro hlarge
    rw [if_neg (not_lt.mpr hlarge)]
    exact ⟨_, rfl, length_frameWith 0 envelope,
      (wellFormed_frameWith hfits (parse_name hname) (by decide)).2⟩

/-- An invoice event of the given payload. -/
def invoice (payload : Bytes) : Envelope where
  id := ascii "evt-42"
  event := ⟨ascii "Financial.createInvoice.ok", .ok⟩
  correlationId := ascii "corr-42"
  causationId := []
  idempotencyKey := ascii "idem-42"
  schemaId := ascii "v1"
  payload := payload
  guarantee := .processed
  createdAtMs := 123456

/-- The invoice takes eighty-eight bytes with an empty payload. -/
theorem decode_encode_invoice :
    encode (invoice []) (List.replicate 87 0) = throw .bufferTooSmall ∧
      ∃ encoded, encode (invoice []) (List.replicate 88 0) = pure encoded ∧
        encoded.frame.length = 88 ∧ decode encoded.frame = pure (invoice []) := by
  have h := decode_encode (invoice [])
    ⟨ascii "Financial.createInvoice.ok", by decide +kernel⟩ (by decide +kernel)
  exact ⟨(h _).1.mpr (by decide +kernel), (h _).2 (by decide +kernel)⟩

/-- The frame with its reserved bytes set to zero. -/
def clearReserved (frame : Bytes) : Bytes :=
  frame.take 32 ++ List.replicate 8 0 ++ frame.drop 40

theorem clearReserved_frameWith (reserved : Nat) (envelope : Envelope) :
    clearReserved (frameWith reserved envelope) = frameWith 0 envelope := by
  -- the reserved bytes are the last integer of the header
  have hsplit : ∀ reserved, frameWith reserved envelope =
      BigEndian.writeInts ((headerOf 0 envelope).take 12) ++
        (BigEndian.bytesOf 8 reserved ++ (fields envelope).flatten) := by
    intro reserved
    simp [frameWith, headerOf, BigEndian.writeInts]
  have hlength : (BigEndian.writeInts ((headerOf 0 envelope).take 12)).length = 32 := by
    simp [BigEndian.length_writeInts, headerOf]
  have hdrop : (frameWith reserved envelope).drop 40 = (fields envelope).flatten := by
    rw [hsplit, ← List.append_assoc, List.drop_left']
    rw [List.length_append, hlength, BigEndian.length_bytesOf]
  have hzero : BigEndian.bytesOf 8 0 = List.replicate 8 0 := by decide
  rw [clearReserved, hdrop, hsplit, List.take_left' hlength, hsplit 0, List.append_assoc, hzero]

/-- **What `decode` accepts.** It never fails a safety check, it succeeds exactly on the
well-formed frames, and encoding the result gives the frame back with its reserved bytes
set to zero. -/
theorem decode_spec (frame : Bytes) :
    (decode frame).run ≠ none ∧
      ((∃ envelope, decode frame = pure envelope) ↔ WellFormed frame) ∧
      ∀ envelope, decode frame = pure envelope → ∀ out : Bytes, frame.length ≤ out.length →
        ∃ encoded, encode envelope out = pure encoded ∧ encoded.frame = clearReserved frame := by
  by_cases hwell : WellFormed frame
  · obtain ⟨event, guarantee, hevent, hstate, hguarantee, hdecode⟩ := decode_of_wellFormed hwell
    obtain ⟨hname, -⟩ := parse_eq_ok_iff.mp hevent
    obtain ⟨hfits, hframe⟩ := frame_eq_of_wellFormed hwell hname hstate hguarantee
    rw [hdecode]
    refine ⟨Option.some_ne_none _, iff_of_true ⟨_, rfl⟩ hwell, fun envelope henvelope out hout => ?_⟩
    obtain rfl : envelopeAt frame event guarantee = envelope := by
      have hrun := congrArg ExceptT.run henvelope
      exact Except.ok.inj (Option.some.inj hrun)
    have hlarge : ¬out.length < frameLength (envelopeAt frame event guarantee) := by
      rw [← length_frameWith (intAt frame 32 8), ← hframe]
      exact not_lt.mpr hout
    rw [encode_eq hfits, if_neg hlarge]
    refine ⟨_, rfl, ?_⟩
    rw [hframe, clearReserved_frameWith, ← hframe]
  · obtain ⟨err, herr⟩ := decode_of_not_wellFormed hwell
    have hfails : ∀ envelope, decode frame ≠ pure envelope := by
      intro envelope henvelope
      rw [herr] at henvelope
      cases henvelope
    have hrun : (decode frame).run ≠ none := by
      rw [herr]
      exact Option.some_ne_none _
    refine ⟨hrun, iff_of_false ?_ hwell, fun envelope henvelope => absurd henvelope (hfails envelope)⟩
    rintro ⟨envelope, henvelope⟩
    exact hfails envelope henvelope

/-- The invoice in a frame whose reserved bytes are in use. -/
theorem decode_spec_invoice :
    ∃ encoded, encode (invoice []) (List.replicate 88 0) = pure encoded ∧
      encoded.frame = clearReserved (frameWith 7 (invoice [])) :=
  (decode_spec (frameWith 7 (invoice []))).2.2 (invoice [])
    (wellFormed_frameWith (by decide +kernel) (by decide +kernel) (by decide)).2
    (List.replicate 88 0) (by decide +kernel)

end Ubiq.Core.Wire
