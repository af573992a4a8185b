import Ubiq.Core.WireRoundTrip
import Ubiq.Foundation.EventStream

/-!
# Server-sent events

`sse_binding.zig` writes an envelope as one event of an event stream. `encode` refuses a payload
with an end of a line and takes any id.
-/

namespace Ubiq.Transports.Sse

open Foundation
open Foundation.EventStream (OneLine Event)
open Ubiq.Core (Envelope CanonicalEvent)

inductive SseError
  | bufferTooSmall
  | invalidPayload
deriving DecidableEq, Repr

/-- The text that `encode` prints. -/
def text (envelope : Envelope) : Bytes :=
  ascii "id: " ++ envelope.id ++ ascii "\nevent: " ++ envelope.event.name ++ ascii "\ndata: " ++
    envelope.payload ++ ascii "\n\n"

/-- `encode` into a buffer of the given size. -/
def encode (size : Nat) (envelope : Envelope) : Except SseError Bytes :=
  if envelope.payload.any (· = newline) || envelope.payload.any (· = 13) then
    .error .invalidPayload
  else if (text envelope).length ≤ size then .ok (text envelope)
  else .error .bufferTooSmall

theorem encode_eq_ok_iff {size : Nat} {envelope : Envelope} {frame : Bytes} :
    encode size envelope = .ok frame ↔
      OneLine envelope.payload ∧ (text envelope).length ≤ size ∧ frame = text envelope := by
  have hline : (envelope.payload.any (· = newline) || envelope.payload.any (· = 13)) = true ↔
      ¬OneLine envelope.payload := by
    simp only [OneLine, EventStream.carriageReturn, Bool.or_eq_true, List.any_eq_true, decide_eq_true_eq]
    grind
  unfold encode
  split
  · next hends => exact iff_of_false nofun fun h => hline.mp hends h.1
  · next hends =>
      have honeLine := not_not.mp (hline.not.mp hends)
      split
      · next hroom =>
          rw [Except.ok.injEq]
          exact ⟨fun heq => ⟨honeLine, hroom, heq.symm⟩, fun h => h.2.2.symm⟩
      · next hroom => exact iff_of_false nofun fun h => hroom h.2.1

/-- The event that an envelope is meant to be. -/
def event (envelope : Envelope) : Event where
  id := some envelope.id
  name := envelope.event.name
  data := envelope.payload

/-- A canonical name is not empty and has no end of a line. -/
theorem oneLine_of_parse {name : Bytes} {event : CanonicalEvent}
    (h : CanonicalEvent.parse name = .ok event) : OneLine event.name ∧ event.name ≠ [] := by
  obtain ⟨hname, hbytes, hthree, -⟩ := Core.parse_eq_ok_iff.mp h
  rw [hname]
  constructor
  · intro byte hbyte
    have hvalid := List.all_eq_true.mp hbytes byte hbyte
    constructor <;> rintro rfl <;> exact absurd hvalid (by decide)
  · rintro rfl
    exact absurd hthree (by decide)

/-- **When a frame is one event.** For every envelope with a canonical event that `encode`
accepts: the client reads exactly the envelope's event if and only if the id has no end of a line,
and the client takes the id. -/
theorem one_event_iff (keepsId : Bytes → Bool) (size : Nat) (envelope : Envelope) (frame : Bytes)
    (hevent : ∃ name, CanonicalEvent.parse name = .ok envelope.event)
    (hencode : encode size envelope = .ok frame) :
    EventStream.events keepsId frame = [event envelope] ↔
      (∀ byte ∈ envelope.id, byte ≠ 10 ∧ byte ≠ 13) ∧ keepsId envelope.id = true := by
  obtain ⟨name, hname⟩ := hevent
  obtain ⟨hpayload, -, rfl⟩ := encode_eq_ok_iff.mp hencode
  constructor
  · -- the ids that a client reads are on one line, wherever they come from
    intro hone
    have hmem : event envelope ∈ EventStream.events keepsId (text envelope) := by
      rw [hone]
      exact List.mem_singleton_self _
    exact EventStream.id_of_mem_events hmem rfl
  · rintro ⟨hid, hkept⟩
    obtain ⟨hone, hnamed⟩ := oneLine_of_parse hname
    have hsplit : text envelope = ascii "id: " ++ envelope.id ++ newline ::
        (ascii "event: " ++ envelope.event.name ++ newline ::
          (ascii "data: " ++ envelope.payload ++ newline :: [newline])) := by
      simp [text, ascii, newline]
    rw [hsplit]
    exact EventStream.events_fields hid hkept hone hnamed hpayload

theorem one_event_invoice :
    EventStream.events (fun _ => true) (text (Core.Wire.invoice (ascii "paid"))) =
      [⟨some (ascii "evt-42"), ascii "Financial.createInvoice.ok", ascii "paid"⟩] := by
  have hname : CanonicalEvent.parse (ascii "Financial.createInvoice.ok") =
      .ok (Core.Wire.invoice (ascii "paid")).event := by decide +kernel
  have hid : OneLine (Core.Wire.invoice (ascii "paid")).id := by decide +kernel
  exact (one_event_iff (fun _ => true) 128 _ _ ⟨_, hname⟩ (by decide +kernel)).mpr ⟨hid, rfl⟩

/-- An invoice whose id ends its line and goes on with an event of its own. -/
def forgedGrant : Envelope :=
  { Core.Wire.invoice (ascii "paid") with id := ascii "1\nevent: Admin.grant.ok\ndata: all\n\nid: 2" }

/-- `encode` accepts the envelope, and the client reads two events. -/
theorem not_one_event_forgedGrant :
    encode 128 forgedGrant = .ok (text forgedGrant) ∧
      EventStream.events (fun _ => true) (text forgedGrant) =
        [⟨some (ascii "1"), ascii "Admin.grant.ok", ascii "all"⟩,
          ⟨some (ascii "2"), ascii "Financial.createInvoice.ok", ascii "paid"⟩] ∧
      EventStream.events (fun _ => true) (text forgedGrant) ≠ [event forgedGrant] :=
  ⟨by decide +kernel, by decide +kernel, by decide +kernel⟩

end Ubiq.Transports.Sse
