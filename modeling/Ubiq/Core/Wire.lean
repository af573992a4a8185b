import Ubiq.Core.Event
import Ubiq.Foundation.BigEndian

/-!
# The binary wire format

`encode` and `decode` of `wire.zig`, cursor by cursor. A computation in `Checked` can end
in a `WireError`, or be stopped by one of Zig's safety checks: an index out of bounds, a
`usize` that overflows, a cast that loses bits. The latter is the outcome `none`.

`encode_eq` and `decode_eq` say that no safety check ever fails, and give the results
without cursors.
-/

namespace Ubiq.Core.Wire

open Foundation
open Message (EventState)

/-- `WireError`; the errors of event names are among them. -/
inductive WireError
  | bufferTooSmall
  | invalidMagic
  | unsupportedVersion
  | invalidFrame
  | invalidState
  | fieldTooLarge
  | emptyEventName
  | invalidCanonicalName
deriving DecidableEq, Repr

/-- An error of an event name, as one of the union; `InvalidState` is in both sets. -/
def WireError.ofEventName : EventNameError → WireError
  | .emptyEventName => .emptyEventName
  | .invalidCanonicalName => .invalidCanonicalName
  | .invalidState => .invalidState

/-- A computation with errors; `none` is a failed safety check. -/
abbrev Checked := ExceptT WireError Option

/-- `if (condition) return err;`. -/
def failIf (condition : Prop) [Decidable condition] (err : WireError) : Checked Unit :=
  if condition then throw err else pure ()

/-- A value, or else the error. -/
def orFail {α : Type} (err : WireError) : Option α → Checked α
  | some value => pure value
  | none => throw err

def magic : Nat := 0x55424951

def version : Nat := 1

def fixedHeaderLen : Nat := 40

/-! ## Buffers -/

/-- The sum of two `usize` values. -/
def add (a b : Nat) : Option Nat :=
  if a + b < 2 ^ 64 then some (a + b) else none

/-- A sum of several `usize` values, from left to right. -/
def sum (start : Nat) (lengths : List Nat) : Option Nat :=
  lengths.foldlM add start

/-- `@intCast` to an unsigned type of the given number of bytes. -/
def intCast (width value : Nat) : Option Nat :=
  if value < 256 ^ width then some value else none

/-- `buffer[start..stop]`. -/
def slice (buffer : Bytes) (start stop : Nat) : Option Bytes :=
  if start ≤ stop ∧ stop ≤ buffer.length then some ((buffer.drop start).take (stop - start))
  else none

/-- Write into the buffer at the cursor and advance it. -/
def put (out : Bytes) (cursor : Nat) (bytes : Bytes) : Option (Bytes × Nat) := do
  let stop ← add cursor bytes.length
  let _ ← slice out cursor stop
  return (out.take cursor ++ bytes ++ out.drop stop, stop)

def putInt (width : Nat) (out : Bytes) (cursor value : Nat) : Option (Bytes × Nat) :=
  put out cursor (BigEndian.bytesOf width value)

def copyField (out : Bytes) (cursor : Nat) (value : Bytes) : Option (Bytes × Nat) :=
  put out cursor value

def takeInt (width : Nat) (frame : Bytes) (cursor : Nat) : Option (Nat × Nat) := do
  let rest ← slice frame cursor frame.length
  let bytes ← slice rest 0 width
  let next ← add cursor width
  return (BigEndian.valueOf bytes, next)

/-- `frame[cursor]`, and the cursor behind it. -/
def takeByte (frame : Bytes) (cursor : Nat) : Option (UInt8 × Nat) := do
  let byte ← frame[cursor]?
  let next ← add cursor 1
  return (byte, next)

def takeField (frame : Bytes) (cursor len : Nat) : Checked (Bytes × Nat) := do
  let stop ← add cursor len
  failIf (stop > frame.length) .invalidFrame
  let value ← slice frame cursor stop
  let next ← add cursor len
  return (value, next)

/-! ## Encoding -/

/-- `@intFromEnum` of the state. -/
def stateByte : EventState → UInt8
  | .request => 0
  | .ok => 1
  | .error => 2

/-- `@intFromEnum` of the guarantee. -/
def guaranteeByte : DeliveryGuarantee → UInt8
  | .bestEffort => 0
  | .received => 1
  | .processed => 2

/-- The six metadata fields, in the order of the frame. -/
def metadata (envelope : Envelope) : List Bytes :=
  [envelope.id, envelope.event.name, envelope.correlationId, envelope.causationId,
    envelope.idempotencyKey, envelope.schemaId]

/-- The length of the frame, a sum of `usize` values. -/
def required (envelope : Envelope) : Option Nat :=
  sum fixedHeaderLen ((metadata envelope ++ [envelope.payload]).map List.length)

/-- The writes of `encode`. -/
def write (envelope : Envelope) (out : Bytes) : Option (Bytes × Nat) := do
  let (out, cursor) ← putInt 4 out 0 magic
  let (out, cursor) ← putInt 2 out cursor version
  let (out, cursor) ← put out cursor [stateByte envelope.event.state]
  let (out, cursor) ← put out cursor [guaranteeByte envelope.guarantee]
  let (out, cursor) ← putInt 8 out cursor envelope.createdAtMs.toNat
  let (out, cursor) ← putInt 2 out cursor (← intCast 2 envelope.id.length)
  let (out, cursor) ← putInt 2 out cursor (← intCast 2 envelope.event.name.length)
  let (out, cursor) ← putInt 2 out cursor (← intCast 2 envelope.correlationId.length)
  let (out, cursor) ← putInt 2 out cursor (← intCast 2 envelope.causationId.length)
  let (out, cursor) ← putInt 2 out cursor (← intCast 2 envelope.idempotencyKey.length)
  let (out, cursor) ← putInt 2 out cursor (← intCast 2 envelope.schemaId.length)
  let (out, cursor) ← putInt 4 out cursor (← intCast 4 envelope.payload.length)
  -- reserved for future flags
  let (out, cursor) ← putInt 8 out cursor 0
  let (out, cursor) ← copyField out cursor envelope.id
  let (out, cursor) ← copyField out cursor envelope.event.name
  let (out, cursor) ← copyField out cursor envelope.correlationId
  let (out, cursor) ← copyField out cursor envelope.causationId
  let (out, cursor) ← copyField out cursor envelope.idempotencyKey
  let (out, cursor) ← copyField out cursor envelope.schemaId
  copyField out cursor envelope.payload

/-- The buffer after `encode`, and the frame in it. -/
structure Encoded where
  buffer : Bytes
  frame : Bytes
deriving DecidableEq, Repr

def encode (envelope : Envelope) (out : Bytes) : Checked Encoded := do
  failIf (∃ field ∈ metadata envelope, field.length > 65535) .fieldTooLarge
  failIf (envelope.payload.length > 4294967295) .fieldTooLarge
  let size ← required envelope
  failIf (out.length < size) .bufferTooSmall
  let (out, cursor) ← write envelope out
  let frame ← slice out 0 cursor
  return { buffer := out, frame := frame }

/-! ## Decoding -/

/-- The state of a state byte. -/
def stateOfByte : UInt8 → Option EventState
  | 0 => some .request
  | 1 => some .ok
  | 2 => some .error
  | _ => none

/-- The guarantee of a guarantee byte. -/
def guaranteeOfByte : UInt8 → Option DeliveryGuarantee
  | 0 => some .bestEffort
  | 1 => some .received
  | 2 => some .processed
  | _ => none

/-- `try CanonicalEvent.parse`. -/
def parseEvent (name : Bytes) : Checked CanonicalEvent :=
  match CanonicalEvent.parse name with
  | .error err => throw (.ofEventName err)
  | .ok event => pure event

def decode (frame : Bytes) : Checked Envelope := do
  failIf (frame.length < fixedHeaderLen) .invalidFrame
  let (magicValue, cursor) ← takeInt 4 frame 0
  failIf (magicValue ≠ magic) .invalidMagic
  let (versionValue, cursor) ← takeInt 2 frame cursor
  failIf (versionValue ≠ version) .unsupportedVersion
  let (byte, cursor) ← takeByte frame cursor
  let encodedState ← orFail .invalidState (stateOfByte byte)
  let (byte, cursor) ← takeByte frame cursor
  let guarantee ← orFail .invalidFrame (guaranteeOfByte byte)
  let (createdAtMs, cursor) ← takeInt 8 frame cursor
  let (idLen, cursor) ← takeInt 2 frame cursor
  let (eventLen, cursor) ← takeInt 2 frame cursor
  let (correlationLen, cursor) ← takeInt 2 frame cursor
  let (causationLen, cursor) ← takeInt 2 frame cursor
  let (idempotencyLen, cursor) ← takeInt 2 frame cursor
  let (schemaLen, cursor) ← takeInt 2 frame cursor
  let (payloadLen, cursor) ← takeInt 4 frame cursor
  -- the reserved bytes are skipped
  let (_, cursor) ← takeInt 8 frame cursor
  let total ← sum idLen [eventLen, correlationLen, causationLen, idempotencyLen, schemaLen,
    payloadLen]
  let stop ← add cursor total
  failIf (stop ≠ frame.length) .invalidFrame
  let (id, cursor) ← takeField frame cursor idLen
  let (eventName, cursor) ← takeField frame cursor eventLen
  let (correlationId, cursor) ← takeField frame cursor correlationLen
  let (causationId, cursor) ← takeField frame cursor causationLen
  let (idempotencyKey, cursor) ← takeField frame cursor idempotencyLen
  let (schemaId, cursor) ← takeField frame cursor schemaLen
  let (payload, _) ← takeField frame cursor payloadLen
  let canonical ← parseEvent eventName
  failIf (canonical.state ≠ encodedState) .invalidState
  return { id, event := canonical, correlationId, causationId, idempotencyKey, schemaId, payload
           guarantee, createdAtMs := UInt64.ofNat createdAtMs }

/-! ## Running checked computations -/

section Checked

variable {α β : Type}

@[simp] theorem lift_some_bind (a : α) (next : α → Checked β) :
    ((liftM (some a : Option α) : Checked α) >>= next) = next a := by
  have hpure : (liftM (some a : Option α) : Checked α) = pure a := rfl
  rw [hpure, pure_bind]

theorem failIf_bind_of {condition : Prop} [Decidable condition] {err : WireError}
    {next : Unit → Checked β} (h : condition) : (failIf condition err >>= next) = throw err := by
  rw [failIf, if_pos h]
  rfl

theorem failIf_bind_of_not {condition : Prop} [Decidable condition] {err : WireError}
    {next : Unit → Checked β} (h : ¬condition) : (failIf condition err >>= next) = next () := by
  rw [failIf, if_neg h]
  rfl

@[simp] theorem orFail_some_bind (err : WireError) (a : α) (next : α → Checked β) :
    (orFail err (some a) >>= next) = next a := rfl

@[simp] theorem orFail_none_bind (err : WireError) (next : α → Checked β) :
    (orFail err none >>= next) = throw err := rfl

end Checked

/-! ## Buffers within their bounds -/

/-- The integer of the given width at an offset. -/
def intAt (frame : Bytes) (offset width : Nat) : Nat :=
  BigEndian.valueOf ((frame.drop offset).take width)

theorem add_eq {a b : Nat} (h : a + b < 2 ^ 64) : add a b = some (a + b) := if_pos h

theorem sum_eq {start : Nat} {lengths : List Nat} (h : start + lengths.sum < 2 ^ 64) :
    sum start lengths = some (start + lengths.sum) := by
  induction lengths generalizing start with
  | nil => rfl
  | cons length rest ih =>
      rw [List.sum_cons] at h ⊢
      have hfirst : add start length = some (start + length) := add_eq (by omega)
      rw [sum, List.foldlM_cons, hfirst]
      show sum (start + length) rest = _
      rw [ih (by omega), Nat.add_assoc]

theorem slice_eq {buffer : Bytes} {start stop : Nat} (h : start ≤ stop)
    (hstop : stop ≤ buffer.length) :
    slice buffer start stop = some ((buffer.drop start).take (stop - start)) := if_pos ⟨h, hstop⟩

variable {cursor : Nat} {frame : Bytes}

theorem takeInt_eq {width : Nat} (h : cursor + width ≤ frame.length)
    (hsmall : cursor + width < 2 ^ 64) :
    takeInt width frame cursor = some (intAt frame cursor width, cursor + width) := by
  have hrest : slice frame cursor frame.length = some (frame.drop cursor) := by
    rw [slice_eq (by omega) le_rfl, List.take_of_length_le (by rw [List.length_drop])]
  have hbytes : slice (frame.drop cursor) 0 width = some ((frame.drop cursor).take width) := by
    rw [slice_eq (Nat.zero_le _) (by rw [List.length_drop]; omega), List.drop_zero, Nat.sub_zero]
  simp [takeInt, hrest, hbytes, add_eq hsmall, intAt]

theorem takeByte_eq (h : cursor < frame.length) (hsmall : cursor + 1 < 2 ^ 64) :
    takeByte frame cursor = some (frame.getD cursor 0, cursor + 1) := by
  simp [takeByte, h, add_eq hsmall]

theorem takeField_eq {len : Nat} (h : cursor + len ≤ frame.length) (hsmall : cursor + len < 2 ^ 64)
    :
    takeField frame cursor len =
      liftM (some ((frame.drop cursor).take len, cursor + len)) := by
  have hslice : slice frame cursor (cursor + len) = some ((frame.drop cursor).take len) := by
    rw [slice_eq (by omega) h, Nat.add_sub_cancel_left]
  rw [takeField, add_eq hsmall, lift_some_bind, failIf_bind_of_not (not_lt.mpr h), hslice]
  rfl

/-- A write behind what has been written. -/
theorem put_append {done rest bytes : Bytes} (hfits : bytes.length ≤ rest.length)
    (hsmall : done.length + bytes.length < 2 ^ 64) :
    put (done ++ rest) done.length bytes =
      some (done ++ bytes ++ rest.drop bytes.length, (done ++ bytes).length) := by
  have hstop : done.length + bytes.length ≤ (done ++ rest).length := by
    rw [List.length_append]
    omega
  simp only [put, add_eq hsmall, slice_eq (Nat.le_add_right _ _) hstop, Option.bind_eq_bind,
    Option.bind_some, List.take_left, List.drop_append, List.length_append]
  simp

end Ubiq.Core.Wire
