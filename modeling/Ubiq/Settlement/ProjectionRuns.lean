import Ubiq.Foundation.Stateful
import Ubiq.Settlement.SettledKeys

/-!
# Runs of the recovery projection

`Projection.apply` works in place: it validates, copies the strings of the record one by one,
changes the entries and then the sequence number, and any of the copies may find no memory. Here
it is modelled step by step, with the answers of the allocator as an input;
`Mutation.applyInPlace_cases` says that the outcome is that of `applyWith`: all of it or nothing.

`Represents` says which projection belongs to the records that were accepted so far. It is kept by
every offer, whatever its outcome, and `represents_run` is the representation invariant of whole
runs that follows from it.
-/

namespace Ubiq.Settlement

open Foundation

/-! ## `apply` in place -/

/-- The projection, and the answers of the allocator to the requests that `apply` is going to make.
When the answers run out, requests are granted. -/
structure Heap where
  projection : Projection
  grants : List Bool
deriving DecidableEq, Repr

/-- Code that works on the projection in place. -/
abbrev Mutation (α : Type) := Stateful Error Heap α

namespace Mutation

/-- One request to the allocator. -/
def request : Mutation Unit := fun heap =>
  match heap.grants with
  | [] => (.ok (), heap)
  | true :: rest => (.ok (), { heap with grants := rest })
  | false :: rest => (.error .outOfMemory, { heap with grants := rest })

/-- A change of the projection. -/
def modifyProjection (change : Projection → Projection) : Mutation Unit := fun heap =>
  (.ok (), { heap with projection := change heap.projection })

/-- `Allocator.dupe`; an empty slice needs no memory. -/
def dupe (text : Bytes) : Mutation Bytes := do
  if text.length ≠ 0 then request
  return text

def cloneOptional : Option Bytes → Mutation (Option Bytes)
  | some text => do
      let copy ← dupe text
      return some copy
  | none => return none

def cloneRecord (source : Record) : Mutation Record := do
  let eventId ← dupe source.eventId
  let canonicalEvent ← dupe source.canonicalEvent
  let idempotencyKey ← dupe source.idempotencyKey
  let payloadReference ← dupe source.payloadReference
  let payload ← dupe source.payload
  let leaseOwner ← cloneOptional source.leaseOwner
  let correlationId ← dupe source.correlationId
  let causationId ← dupe source.causationId
  return {
    sequence := source.sequence
    eventId := eventId
    canonicalEvent := canonicalEvent
    idempotencyKey := idempotencyKey
    payloadReference := payloadReference
    payload := payload
    deliveryState := source.deliveryState
    leaseOwner := leaseOwner
    leaseDeadlineMs := source.leaseDeadlineMs
    attempt := source.attempt
    fencingGeneration := source.fencingGeneration
    createdAtMs := source.createdAtMs
    updatedAtMs := source.updatedAtMs
    correlationId := correlationId
    causationId := causationId }

/-- The entry of the event is replaced by a copy, or a copy is appended. Appending asks for memory
when the list is full; a list with room is an allocator that grants this request. -/
def storeCopy (projection : Projection) (record : Record) : Mutation Unit :=
  match projection.findByEventId record.eventId with
  | some index => do
      let owned ← cloneRecord record
      modifyProjection fun current => { current with entries := current.entries.set index owned }
  | none => do
      let owned ← cloneRecord record
      request
      modifyProjection fun current => { current with entries := current.entries ++ [owned] }

/-- `Projection.apply`. -/
def applyInPlace (record : Record) : Mutation Unit := do
  let heap ← get
  Stateful.ofExcept (heap.projection.validate record)
  storeCopy heap.projection record
  modifyProjection fun current => { current with lastSequence := record.sequence }

/-! ## All or nothing -/

/-- The code returns `value` or finds no memory, and leaves the projection alone. -/
def Allocates {α : Type} (code : Mutation α) (value : α) : Prop :=
  ∀ heap : Heap, ∃ grants, code heap = (.ok value, { heap with grants := grants }) ∨
    code heap = (.error .outOfMemory, { heap with grants := grants })

theorem allocates_pure {α : Type} (value : α) : Allocates (pure value) value :=
  fun heap => ⟨heap.grants, Or.inl rfl⟩

theorem allocates_request : Allocates request () := by
  intro heap
  rcases hgrants : heap.grants with _ | ⟨_ | _, rest⟩
  · refine ⟨heap.grants, Or.inl ?_⟩
    simp only [request, hgrants]
    rw [← hgrants]
  · exact ⟨rest, Or.inr (by rw [request, hgrants])⟩
  · exact ⟨rest, Or.inl (by rw [request, hgrants])⟩

theorem Allocates.bind {α β : Type} {first : Mutation α} {value : α} {rest : α → Mutation β}
    {result : β} (hfirst : Allocates first value) (hrest : Allocates (rest value) result) :
    Allocates (first >>= rest) result := by
  intro heap
  obtain ⟨grants, hok | herror⟩ := hfirst heap
  · obtain ⟨left, hresult⟩ := hrest { heap with grants := grants }
    exact ⟨left, by rwa [Stateful.bind_of_ok hok]⟩
  · exact ⟨grants, Or.inr (Stateful.bind_of_error herror rest)⟩

theorem allocates_dupe (text : Bytes) : Allocates (dupe text) text := by
  unfold dupe
  split
  · exact allocates_request.bind (allocates_pure text)
  · exact allocates_pure text

theorem allocates_cloneOptional (value : Option Bytes) : Allocates (cloneOptional value) value := by
  cases value with
  | none => exact allocates_pure none
  | some text => exact (allocates_dupe text).bind (allocates_pure (some text))

/-- A copy is equal to its record. -/
theorem allocates_cloneRecord (record : Record) : Allocates (cloneRecord record) record := by
  unfold cloneRecord
  apply (allocates_dupe record.eventId).bind
  apply (allocates_dupe record.canonicalEvent).bind
  apply (allocates_dupe record.idempotencyKey).bind
  apply (allocates_dupe record.payloadReference).bind
  apply (allocates_dupe record.payload).bind
  apply (allocates_cloneOptional record.leaseOwner).bind
  apply (allocates_dupe record.correlationId).bind
  apply (allocates_dupe record.causationId).bind
  exact allocates_pure record

/-- Storing the copy changes the entries as `put` does, or nothing. -/
theorem storeCopy_cases (projection : Projection) (record : Record) (grants : List Bool) :
    ∃ left, storeCopy projection record ⟨projection, grants⟩ =
          (.ok (), ⟨{ projection with entries := (projection.put record).entries }, left⟩) ∨
        storeCopy projection record ⟨projection, grants⟩ = (.error .outOfMemory, ⟨projection, left⟩) := by
  unfold storeCopy Projection.put
  cases projection.findByEventId record.eventId with
  | some index =>
      obtain ⟨left, hok | herror⟩ := allocates_cloneRecord record ⟨projection, grants⟩
      · exact ⟨left, Or.inl (Stateful.bind_of_ok hok _)⟩
      · exact ⟨left, Or.inr (Stateful.bind_of_error herror _)⟩
  | none =>
      obtain ⟨middle, hcopy | hcopy⟩ := allocates_cloneRecord record ⟨projection, grants⟩
      · obtain ⟨left, hroom | hroom⟩ := allocates_request ⟨projection, middle⟩
        · exact ⟨left, Or.inl ((Stateful.bind_of_ok hcopy _).trans (Stateful.bind_of_ok hroom _))⟩
        · exact ⟨left, Or.inr ((Stateful.bind_of_ok hcopy _).trans (Stateful.bind_of_error hroom _))⟩
      · exact ⟨middle, Or.inr (Stateful.bind_of_error hcopy _)⟩

/-- What `apply` does with the state, given whether it found memory. -/
theorem applyInPlace_cases (projection : Projection) (record : Record) (grants : List Bool) :
    ∃ memory left, applyInPlace record ⟨projection, grants⟩ =
      match projection.applyWith memory record with
      | .ok next => (.ok (), ⟨next, left⟩)
      | .error err => (.error err, ⟨projection, left⟩) := by
  have hget : (get : Mutation Heap) ⟨projection, grants⟩ =
      (.ok ⟨projection, grants⟩, ⟨projection, grants⟩) := rfl
  rw [applyInPlace, Stateful.bind_of_ok hget]
  unfold Projection.applyWith
  cases hvalid : projection.validate record with
  | error err => exact ⟨true, grants, Stateful.bind_of_error rfl _⟩
  | ok _ =>
      have hcheck : (Stateful.ofExcept (.ok ()) : Mutation Unit) ⟨projection, grants⟩ =
          (.ok (), ⟨projection, grants⟩) := rfl
      rw [Stateful.bind_of_ok hcheck]
      obtain ⟨left, hok | herror⟩ := storeCopy_cases projection record grants
      · refine ⟨true, left, ?_⟩
        rw [Stateful.bind_of_ok hok]
        have hput : projection.put record =
            { entries := (projection.put record).entries, lastSequence := record.sequence } := by
          rw [← Projection.put_lastSequence projection record]
        rw [if_pos rfl, hput]
        rfl
      · exact ⟨false, left, Stateful.bind_of_error herror _⟩

end Mutation

namespace Projection

/-- A record that is offered to `apply`, and the answers of the allocator meanwhile. -/
structure Offer where
  record : Record
  grants : List Bool
deriving DecidableEq, Repr

/-- One call of `apply`: the projection afterwards, and the result of the call. -/
def perform (projection : Projection) (offer : Offer) : Projection × Except Error Unit :=
  let outcome := Mutation.applyInPlace offer.record ⟨projection, offer.grants⟩
  (outcome.2.projection, outcome.1)

/-- **All or nothing.** An offer is rejected and changes nothing, or it is valid and put. -/
theorem perform_cases (projection : Projection) (offer : Offer) :
    (∃ err, perform projection offer = (projection, .error err)) ∨
      (projection.validate offer.record = .ok () ∧
        perform projection offer = (projection.put offer.record, .ok ())) := by
  obtain ⟨memory, left, happly⟩ :=
    Mutation.applyInPlace_cases projection offer.record offer.grants
  unfold perform
  rw [happly]
  unfold applyWith
  cases projection.validate offer.record with
  | error err => exact Or.inl ⟨err, rfl⟩
  | ok _ =>
      cases memory with
      | true => exact Or.inr ⟨rfl, rfl⟩
      | false => exact Or.inl ⟨.outOfMemory, rfl⟩

/-! ## The accepted records -/

/-- The records of the calls that succeeded. -/
def accepted (calls : List (Offer × Except Error Unit)) : List Record :=
  calls.filterMap fun call => match call.2 with
    | .ok _ => some call.1.record
    | .error _ => none

/-- The records of an event. -/
def historyOf (id : Bytes) (records : List Record) : List Record :=
  records.filter fun record => record.eventId = id

/-- The projection that belongs to the accepted records: ids and keys are distinct, the last sequence
is that of the last record and bounds the stored ones, an entry is the last record of its event, and
the records of an event go along a path of `allowed`. -/
structure Represents (projection : Projection) (records : List Record) : Prop where
  wellFormed : projection.WellFormed
  lastSequence : projection.lastSequence = (records.getLast?.map Record.sequence).getD 0
  bounded : ∀ entry ∈ projection.entries, entry.sequence ≤ projection.lastSequence
  mem_entries_iff : ∀ entry, entry ∈ projection.entries ↔
    (historyOf entry.eventId records).getLast? = some entry
  path : ∀ id, (historyOf id records).IsChain fun earlier later =>
    allowed earlier.deliveryState later.deliveryState = true

theorem represents_init : Represents init [] where
  wellFormed := wellFormed_init
  lastSequence := rfl
  bounded := by simp [init]
  mem_entries_iff := by simp [init, historyOf]
  path := by simp [historyOf]

theorem historyOf_concat_self (record : Record) (records : List Record) :
    historyOf record.eventId (records ++ [record]) = historyOf record.eventId records ++ [record] := by
  simp [historyOf]

variable {record : Record} {projection : Projection} {records : List Record}

theorem historyOf_concat_of_ne {id : Bytes} (h : record.eventId ≠ id) (records : List Record) :
    historyOf id (records ++ [record]) = historyOf id records := by
  simp [historyOf, h]

/-- **Step lemma.** A valid record is the last of its event. -/
theorem Represents.put (h : projection.Represents records)
    (hvalid : projection.validate record = .ok ()) :
    (projection.put record).Represents (records ++ [record]) := by
  obtain ⟨hlater, -, hallowed⟩ := (h.wellFormed.validate_ok_iff record).mp hvalid
  refine ⟨h.wellFormed.apply (apply_of_validate hvalid), by simp, ?_, ?_, ?_⟩
  · intro entry hentry
    rw [put_lastSequence]
    rcases h.wellFormed.mem_put.mp hentry with rfl | ⟨hmem, -⟩
    · exact UInt64.le_refl _
    · exact UInt64.le_of_lt (UInt64.lt_of_le_of_lt (h.bounded entry hmem) hlater)
  · intro entry
    rw [h.wellFormed.mem_put]
    by_cases hevent : record.eventId = entry.eventId
    · rw [← hevent, historyOf_concat_self, List.getLast?_concat]
      simp [eq_comm]
    · have hne : entry ≠ record := by
        rintro rfl
        exact hevent rfl
      rw [historyOf_concat_of_ne hevent, ← h.mem_entries_iff]
      simp [hne, Ne.symm hevent]
  · intro id
    by_cases hevent : record.eventId = id
    · subst hevent
      rw [historyOf_concat_self]
      refine List.isChain_append.mpr ⟨h.path _, List.isChain_singleton _, ?_⟩
      intro last hlast other hother
      -- the last record of the event so far is the stored one
      obtain rfl : other = record := by simpa [eq_comm] using hother
      have hid : last.eventId = other.eventId := by
        have hmem := List.mem_of_mem_getLast? hlast
        simpa [historyOf] using (List.mem_filter.mp hmem).2
      have hentry : last ∈ projection.entries := (h.mem_entries_iff last).mpr (hid ▸ hlast)
      exact hallowed last hentry hid
    · rw [historyOf_concat_of_ne hevent]
      exact h.path id

/-- Every call keeps the projection in step with the accepted records. -/
theorem Represents.perform {calls : List (Offer × Except Error Unit)}
    (h : projection.Represents (accepted calls)) (offer : Offer) :
    (Execution.after perform projection offer).Represents
      (accepted (calls ++ [(offer, (Projection.perform projection offer).2)])) := by
  unfold Execution.after
  rcases perform_cases projection offer with ⟨err, hrejected⟩ | ⟨hvalid, haccepted⟩
  · rw [hrejected]
    simpa [accepted] using h
  · rw [haccepted]
    simpa [accepted] using h.put hvalid

/-- The projection after a sequence of offers. -/
def final (offers : List Offer) : Projection :=
  Execution.run (Execution.after perform) init offers

/-- The records of a sequence of offers that were accepted. -/
def acceptedOf (offers : List Offer) : List Record :=
  accepted (Execution.trace perform init offers)

/-- **Run lemma.** -/
theorem represents_final (offers : List Offer) : (final offers).Represents (acceptedOf offers) := by
  have hstep : ∀ (projection : Projection) (calls : List (Offer × Except Error Unit)) (offer : Offer),
      projection.Represents (accepted calls) →
        (Execution.after perform projection offer).Represents
          (accepted (calls ++ [(offer, (perform projection offer).2)])) :=
    fun _ _ offer h => h.perform offer
  have hstart : init.Represents (accepted []) := represents_init
  exact Execution.invariant_trace hstep hstart offers

/-! ## Settled events -/

/-- An event that is settled repeats its state. -/
theorem eq_of_allowed_of_settled {source target : State} (h : allowed source target = true)
    (hsettled : source.settled = true) : target = source := by
  cases source <;> cases target <;> revert h hsettled <;> decide

/-- From the record that settles an event on, its state is the same. -/
theorem Represents.settled (h : projection.Represents records) (id : Bytes) :
    (historyOf id records).Pairwise fun earlier later =>
      earlier.deliveryState.settled = true → later.deliveryState = earlier.deliveryState := by
  have htrans : Trans
      (fun earlier later : Record =>
        earlier.deliveryState.settled = true → later.deliveryState = earlier.deliveryState)
      (fun earlier later : Record =>
        earlier.deliveryState.settled = true → later.deliveryState = earlier.deliveryState)
      (fun earlier later : Record =>
        earlier.deliveryState.settled = true → later.deliveryState = earlier.deliveryState) := by
    constructor
    intro first second third hfirst hsecond hsettled
    have hsame := hfirst hsettled
    exact (hsecond (hsame ▸ hsettled)).trans hsame
  refine List.isChain_iff_pairwise.mp ((h.path id).imp ?_)
  exact fun earlier later hallowed hsettled => eq_of_allowed_of_settled hallowed hsettled

/-- The stored entry of an event that was settled is settled. -/
theorem Represents.exists_settled (h : projection.Represents records) (hmem : record ∈ records)
    (hsettled : record.deliveryState.settled = true) :
    ∃ entry ∈ projection.entries, entry.eventId = record.eventId ∧
      entry.deliveryState = record.deliveryState := by
  have hown : record ∈ historyOf record.eventId records := by simp [historyOf, hmem]
  have hpath := h.settled record.eventId
  obtain ⟨before, after, hsplit⟩ := List.append_of_mem hown
  -- the stored entry is the last record of the event
  have hstored : ∀ entry, (historyOf record.eventId records).getLast? = some entry →
      entry ∈ projection.entries ∧ entry.eventId = record.eventId := by
    intro entry hlast
    have hid : entry.eventId = record.eventId := by
      simpa [historyOf] using (List.mem_filter.mp (List.mem_of_mem_getLast? hlast)).2
    exact ⟨(h.mem_entries_iff entry).mpr (hid ▸ hlast), hid⟩
  rcases List.eq_nil_or_concat after with rfl | ⟨middle, last, rfl⟩
  · obtain ⟨hentry, hid⟩ := hstored record (by rw [hsplit, List.getLast?_concat])
    exact ⟨record, hentry, hid, rfl⟩
  · have hlast : (historyOf record.eventId records).getLast? = some last := by
      rw [hsplit, List.concat_eq_append, ← List.cons_append, ← List.append_assoc,
        List.getLast?_concat]
    obtain ⟨hentry, hid⟩ := hstored last hlast
    rw [hsplit] at hpath
    have hrel := (List.pairwise_cons.mp (List.pairwise_append.mp hpath).2.1).1 last (by simp)
    exact ⟨last, hentry, hid, hrel hsettled⟩

theorem Represents.isClaimable_eq_false (h : projection.Represents records)
    (hmem : record ∈ records) (hsettled : record.deliveryState.settled = true) (nowMs : UInt64) :
    projection.isClaimable record.eventId nowMs = false := by
  obtain ⟨entry, hentry, hid, hstate⟩ := h.exists_settled hmem hsettled
  rw [← hid]
  exact h.wellFormed.isClaimable_eq_false hentry (hstate ▸ hsettled) nowMs

/-- **The representation invariant of whole runs.** After any offers, with any answers of the
allocator: the projection represents the accepted records; every event has kept its state from the
record on that settled it, and an event that was settled at any time is not claimable; and
whatever is offered next, an error leaves the projection as it was. -/
theorem represents_run (offers : List Offer) :
    (final offers).Represents (acceptedOf offers) ∧
      (∀ id, (historyOf id (acceptedOf offers)).Pairwise fun earlier later =>
        earlier.deliveryState.settled = true → later.deliveryState = earlier.deliveryState) ∧
      (∀ record ∈ acceptedOf offers, record.deliveryState.settled = true →
        ∀ nowMs, (final offers).isClaimable record.eventId nowMs = false) ∧
      ∀ offer err, (perform (final offers) offer).2 = .error err →
        (perform (final offers) offer).1 = final offers := by
  have h := represents_final offers
  refine ⟨h, h.settled, ?_, ?_⟩
  · exact fun record hmem hsettled nowMs => h.isClaimable_eq_false hmem hsettled nowMs
  · intro offer err herror
    rcases perform_cases (final offers) offer with ⟨_, hrejected⟩ | ⟨-, haccepted⟩
    · rw [hrejected]
    · rw [haccepted] at herror
      cases herror

end Projection
end Ubiq.Settlement
