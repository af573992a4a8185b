import Ubiq.Message.Model

/-!
# Canonical events of the Zig core

`event.zig`: the envelope of the core, and `CanonicalEvent.parse`, a loop over the bytes
of a name. The Go runtime recognises the same names by a regular expression.

The loop counts dots where the expression looks at segments. `parse` therefore takes
names with an empty segment or with a segment that does not start with a letter, which
`Envelope.State` and the schema refuse; `runtimesAgree_iff` says that these are the only
names on which the two differ.
-/

namespace Ubiq.Core

open Foundation

inductive EventNameError
  | emptyEventName
  | invalidCanonicalName
  | invalidState
deriving DecidableEq, Repr

/-- `CanonicalEvent`; the three states are those of the Go runtime. -/
structure CanonicalEvent where
  name : Bytes
  state : Message.EventState
deriving DecidableEq, Repr

inductive DeliveryGuarantee
  | bestEffort
  | received
  | processed
deriving DecidableEq, Repr

structure Envelope where
  id : Bytes
  event : CanonicalEvent
  correlationId : Bytes
  causationId : Bytes
  idempotencyKey : Bytes
  schemaId : Bytes
  payload : Bytes
  guarantee : DeliveryGuarantee
  createdAtMs : UInt64
deriving DecidableEq, Repr

/-! ## Parsing -/

def isAlphanumeric (byte : UInt8) : Bool :=
  (48 ≤ byte ∧ byte ≤ 57) ∨ (65 ≤ byte ∧ byte ≤ 90) ∨ (97 ≤ byte ∧ byte ≤ 122)

/-- The bytes of a name: letters, digits, `.`, `_` and `-`. -/
def nameByte (byte : UInt8) : Bool :=
  isAlphanumeric byte || byte = 46 || byte = 95 || byte = 45

/-- The loop of `parse`: the number of segments, or an error at the first foreign byte. -/
def countSegments : Nat → Bytes → Except EventNameError Nat
  | segments, [] => .ok segments
  | segments, byte :: rest =>
      if !nameByte byte then .error .invalidCanonicalName
      else countSegments (if byte = 46 then segments + 1 else segments) rest

/-- The state that a text names. -/
def stateOf (text : Bytes) : Option Message.EventState :=
  if text = ascii "request" then some .request
  else if text = ascii "ok" then some .ok
  else if text = ascii "error" then some .error
  else none

def CanonicalEvent.parse (name : Bytes) : Except EventNameError CanonicalEvent :=
  if name.length = 0 then .error .emptyEventName
  else
    match countSegments 1 name with
    | .error err => .error err
    | .ok segments =>
        if segments < 3 then .error .invalidCanonicalName
        else
          match Lines.lastIndexOfScalar 46 name with
          | none => .error .invalidCanonicalName
          | some lastDot =>
              if lastDot = 0 ∨ lastDot + 1 ≥ name.length then .error .invalidCanonicalName
              else
                match stateOf (name.drop (lastDot + 1)) with
                | none => .error .invalidState
                | some state => .ok { name := name, state := state }

variable {name : Bytes}

theorem countSegments_eq_ok_iff {start segments : Nat} :
    countSegments start name = .ok segments ↔
      name.all nameByte = true ∧ segments = start + name.count 46 := by
  induction name generalizing start with
  | nil => simp [countSegments, eq_comm]
  | cons byte rest ih =>
      unfold countSegments
      cases hbyte : nameByte byte with
      | false => simp [hbyte]
      | true =>
          simp only [Bool.not_true, Bool.false_eq_true, if_false, ih, List.all_cons, hbyte,
            Bool.true_and]
          by_cases hdot : byte = 46
          · rw [if_pos hdot, hdot, List.count_cons_self]
            exact and_congr_right fun _ => by omega
          · rw [if_neg hdot, List.count_cons_of_ne hdot]

theorem length_splitDots (name : Bytes) :
    (Message.splitDots name).length = 1 + name.count 46 := by
  rw [Message.splitDots, List.length_append, Lines.length_completeLines, List.length_singleton,
    Nat.add_comm]

@[simp] theorem stateOf_nil : stateOf [] = none := by decide

/-- **What `parse` accepts**: only name bytes, three segments, and a state behind the last
dot. -/
theorem parse_eq_ok_iff {event : CanonicalEvent} :
    CanonicalEvent.parse name = .ok event ↔
      event.name = name ∧ name.all nameByte = true ∧ 3 ≤ (Message.splitDots name).length ∧
        stateOf (Lines.tail 46 name) = some event.state := by
  rw [length_splitDots]
  unfold CanonicalEvent.parse
  split
  · next hempty =>
      obtain rfl := List.length_eq_zero_iff.mp hempty
      simp
  · next hnonempty =>
      split
      · next err herr =>
          -- the loop fails only on a foreign byte
          have hall : ¬name.all nameByte = true := by
            intro hall
            rw [countSegments_eq_ok_iff.mpr ⟨hall, rfl⟩] at herr
            cases herr
          simp [hall]
      · next segments hsegments =>
          obtain ⟨hall, rfl⟩ := countSegments_eq_ok_iff.mp hsegments
          split
          · next hfew => simp [show ¬3 ≤ 1 + name.count 46 by omega]
          · next hmany =>
              split
              · next hnone =>
                  have hzero := List.count_eq_zero.mpr (Lines.lastIndexOfScalar_eq_none_iff.mp hnone)
                  omega
              · next lastDot hdot =>
                  obtain ⟨hdrop, hstart⟩ := Lines.drop_lastIndexOfScalar hdot
                  rw [hdrop]
                  split
                  · next hedge =>
                      -- a last dot at the end leaves no text for the state
                      have hend : name.length ≤ lastDot + 1 := by
                        have := hstart (by omega)
                        omega
                      have htail : Lines.tail 46 name = [] := by
                        rw [← hdrop, List.drop_eq_nil_iff]
                        exact hend
                      simp [htail]
                  · have hthree : 3 ≤ 1 + name.count 46 := by omega
                    cases hstate : stateOf (Lines.tail 46 name) with
                    | none => simp
                    | some state =>
                        obtain ⟨eventName, eventState⟩ := event
                        simp [hall, hthree, eq_comm]

/-! ## The two runtimes -/

/-- A segment starts with a letter. -/
def startsWithLetter : Bytes → Bool
  | [] => false
  | byte :: _ => Message.letter byte

theorem nameByte_eq (byte : UInt8) :
    nameByte byte = (Message.segmentByte byte || decide (byte = 46)) := by
  rw [Bool.eq_iff_iff]
  simp only [nameByte, isAlphanumeric, Message.segmentByte, Message.letter, Bool.or_eq_true,
    decide_eq_true_eq]
  tauto

theorem segmentByte_of_letter {byte : UInt8} (h : Message.letter byte = true) :
    Message.segmentByte byte = true := by
  simp [Message.segmentByte, h]

theorem segment_iff {text : Bytes} :
    Message.segment text = true ↔
      startsWithLetter text = true ∧ ∀ byte ∈ text, Message.segmentByte byte = true := by
  cases text with
  | nil => simp [Message.segment, startsWithLetter]
  | cons byte rest =>
      simp only [Message.segment, startsWithLetter, Bool.and_eq_true, List.all_eq_true,
        List.forall_mem_cons]
      exact and_congr_right fun hletter => (and_iff_right (segmentByte_of_letter hletter)).symm

/-- The segments of a name have the right bytes exactly when the name has. -/
theorem all_segment_iff :
    (Message.splitDots name).all Message.segment = true ↔
      name.all nameByte = true ∧ ∀ segment ∈ Message.splitDots name,
        startsWithLetter segment = true := by
  have hbytes : name.all nameByte = true ↔ ∀ segment ∈ Message.splitDots name,
      ∀ byte ∈ segment, Message.segmentByte byte = true := by
    rw [Message.splitDots, Lines.forall_mem_pieces_iff, List.all_eq_true]
    refine forall₂_congr fun byte _ => ?_
    rw [nameByte_eq, Bool.or_eq_true, decide_eq_true_eq, ← or_iff_not_imp_right]
  rw [hbytes, List.all_eq_true]
  simp only [segment_iff]
  exact ⟨fun h => ⟨fun s hs => (h s hs).2, fun s hs => (h s hs).1⟩,
    fun h s hs => ⟨h.2 s hs, h.1 s hs⟩⟩

theorem state_eq_ok_iff {envelope : Message.Envelope} {state : Message.EventState} :
    envelope.state = .ok state ↔
      (3 ≤ (Message.splitDots envelope.event).length ∧
        (Message.splitDots envelope.event).all Message.segment = true) ∧
        stateOf (Lines.tail 46 envelope.event) = some state := by
  unfold Message.Envelope.state stateOf
  by_cases hpattern : 3 ≤ (Message.splitDots envelope.event).length ∧
      (Message.splitDots envelope.event).all Message.segment = true
  · have hmatch : Message.canonicalEventPattern envelope.event = true := decide_eq_true hpattern
    rw [and_iff_right hpattern]
    simp only [hmatch, Bool.not_true, Bool.false_eq_true, if_false]
    split
    · simp
    · split
      · simp
      · split <;> simp
  · have hmatch : Message.canonicalEventPattern envelope.event = false := decide_eq_false hpattern
    simp only [hmatch, hpattern, Bool.not_false, if_true, false_and, iff_false]
    exact fun h => by cases h

/-- The runtimes agree on the event of an envelope: one accepts it exactly when the other
does, with the same state. -/
def RuntimesAgree (envelope : Message.Envelope) : Prop :=
  ((∃ event, CanonicalEvent.parse envelope.event = .ok event) ↔
      ∃ state, envelope.state = .ok state) ∧
    ∀ event state, CanonicalEvent.parse envelope.event = .ok event →
      envelope.state = .ok state → event.state = state

/-- A name that passes the byte loop although one of its segments is empty or starts with
a digit, `_` or `-`. -/
def LooseName (name : Bytes) : Prop :=
  name.all nameByte = true ∧ 3 ≤ (Message.splitDots name).length ∧
    (stateOf (Lines.tail 46 name)).isSome = true ∧
    ∃ segment ∈ Message.splitDots name, startsWithLetter segment = false

instance (name : Bytes) : Decidable (LooseName name) :=
  inferInstanceAs (Decidable (_ ∧ _ ∧ _ ∧ ∃ segment ∈ _, _))

theorem exists_parse_iff :
    (∃ event, CanonicalEvent.parse name = .ok event) ↔
      name.all nameByte = true ∧ 3 ≤ (Message.splitDots name).length ∧
        (stateOf (Lines.tail 46 name)).isSome = true := by
  constructor
  · rintro ⟨event, hevent⟩
    obtain ⟨-, hall, hthree, hstate⟩ := parse_eq_ok_iff.mp hevent
    exact ⟨hall, hthree, by rw [hstate]; rfl⟩
  · rintro ⟨hall, hthree, hstate⟩
    obtain ⟨state, hsome⟩ := Option.isSome_iff_exists.mp hstate
    exact ⟨⟨name, state⟩, parse_eq_ok_iff.mpr ⟨rfl, hall, hthree, hsome⟩⟩

/-- The expression asks for a letter at the start of every segment on top of what the byte
loop asks for. -/
theorem exists_state_iff {envelope : Message.Envelope} :
    (∃ state, envelope.state = .ok state) ↔
      (∃ event, CanonicalEvent.parse envelope.event = .ok event) ∧
        ∀ segment ∈ Message.splitDots envelope.event, startsWithLetter segment = true := by
  rw [exists_parse_iff]
  constructor
  · rintro ⟨state, hok⟩
    obtain ⟨⟨hthree, hsegments⟩, hsome⟩ := state_eq_ok_iff.mp hok
    obtain ⟨hall, hletters⟩ := all_segment_iff.mp hsegments
    exact ⟨⟨hall, hthree, by rw [hsome]; rfl⟩, hletters⟩
  · rintro ⟨⟨hall, hthree, hsome⟩, hletters⟩
    obtain ⟨state, hsome⟩ := Option.isSome_iff_exists.mp hsome
    exact ⟨state, state_eq_ok_iff.mpr ⟨⟨hthree, all_segment_iff.mpr ⟨hall, hletters⟩⟩, hsome⟩⟩

theorem looseName_iff :
    LooseName name ↔
      (∃ event, CanonicalEvent.parse name = .ok event) ∧
        ¬∀ segment ∈ Message.splitDots name, startsWithLetter segment = true := by
  rw [exists_parse_iff, LooseName]
  simp [and_assoc]

/-- **The runtimes agree on all names but the loose ones.** -/
theorem runtimesAgree_iff (envelope : Message.Envelope) :
    RuntimesAgree envelope ↔ ¬LooseName envelope.event := by
  have hsame : ∀ event state, CanonicalEvent.parse envelope.event = .ok event →
      envelope.state = .ok state → event.state = state := by
    intro event state hevent hok
    obtain ⟨-, -, -, hone⟩ := parse_eq_ok_iff.mp hevent
    obtain ⟨-, htwo⟩ := state_eq_ok_iff.mp hok
    exact Option.some.inj (hone.symm.trans htwo)
  -- agreement on the state is free, and acceptance by the core is the common part
  rw [RuntimesAgree, and_iff_left hsame, exists_state_iff, looseName_iff, iff_self_and,
    not_and_not_right]

/-- An order with the given event. -/
def orderNamed (event : Bytes) : Message.Envelope where
  id := ascii "e1"
  event := event
  correlationId := ascii "c1"
  idempotencyKey := ascii "k1"
  schemaId := ascii "s1"
  payload := ascii "\x7b\x7d"
  guarantee := .processed
  createdAtMs := 1000

/-- **The core accepts a name without an entity and an operation, which the Go runtime
refuses.** -/
theorem not_runtimesAgree_emptySegments :
    ¬∀ envelope : Message.Envelope, RuntimesAgree envelope := by
  intro h
  obtain ⟨⟨hforward, -⟩, -⟩ := h (orderNamed (ascii "..ok"))
  have hcore : CanonicalEvent.parse (ascii "..ok") = .ok ⟨ascii "..ok", .ok⟩ := by decide
  obtain ⟨state, hstate⟩ := hforward ⟨_, hcore⟩
  have hgo : (orderNamed (ascii "..ok")).state = .error (.invalidCanonicalEvent (ascii "..ok")) := by
    decide
  rw [hgo] at hstate
  cases hstate

end Ubiq.Core
