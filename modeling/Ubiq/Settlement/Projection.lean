import Ubiq.Settlement.Record
import Ubiq.Foundation.Keyed

/-!
# The recovery projection

`settlement_projection.Projection`: the in-memory index that is rebuilt from the
journal. Entries are stored by event id while settlement is asked for by
idempotency key, and `validate` looks at the two indexes separately.

* `apply_ok_iff` splits `apply` into its check and its update `put`.
* `WellFormed` is the representation invariant: event ids and idempotency keys
  are pairwise distinct. `WellFormed.apply` preserves it.
* `mem_put` and `isSettled_iff` are what the rest of the development uses.
-/

namespace Ubiq.Settlement

open Foundation

/-- `settlement_projection.Projection`; an entry holds nothing but its record. -/
structure Projection where
  entries : List Record := []
  lastSequence : UInt64 := 0
deriving DecidableEq, Repr

namespace Projection

def init : Projection := {}

def findByIdempotencyKey (projection : Projection) (key : Bytes) : Option Nat :=
  projection.entries.findIdx? fun entry => entry.idempotencyKey = key

def findByEventId (projection : Projection) (id : Bytes) : Option Nat :=
  projection.entries.findIdx? fun entry => entry.eventId = id

end Projection

def allowed (source target : State) : Bool :=
  match source with
  | .published => target = .published ∨ target = .leased ∨ target = .expired
  | .leased => target = .leased ∨ target = .received ∨ target = .settledOk ∨
      target = .settledError ∨ target = .expired
  | .received => target = .received ∨ target = .leased ∨ target = .settledOk ∨
      target = .settledError ∨ target = .expired
  | .expired => target = .expired ∨ target = .leased
  | .settledOk => target = .settledOk
  | .settledError => target = .settledError

namespace Projection

def validate (projection : Projection) (record : Record) : Except Error Unit :=
  if record.sequence ≤ projection.lastSequence then .error .sequenceRegression
  else if ((projection.findByIdempotencyKey record.idempotencyKey).bind
      fun index => projection.entries[index]?).any
        fun existing => existing.eventId ≠ record.eventId then
    .error .idempotencyConflict
  else if ((projection.findByEventId record.eventId).bind
      fun index => projection.entries[index]?).any
        fun previous => !allowed previous.deliveryState record.deliveryState then
    .error .invalidTransition
  else
    .ok ()

/-- The update of `apply`: the entry of the event id is replaced in place, a new
event id is appended. -/
def put (projection : Projection) (record : Record) : Projection :=
  match projection.findByEventId record.eventId with
  | some index =>
      { entries := projection.entries.set index record, lastSequence := record.sequence }
  | none =>
      { entries := projection.entries ++ [record], lastSequence := record.sequence }

/-- `Projection.apply`; `memory = false` is the allocation failure of
`cloneRecord` or of the list, after which nothing has changed. -/
def applyWith (memory : Bool) (projection : Projection) (record : Record) :
    Except Error Projection :=
  match projection.validate record with
  | .error err => .error err
  | .ok () => if memory then .ok (projection.put record) else .error .outOfMemory

/-- `Projection.apply` with enough memory. -/
def apply (projection : Projection) (record : Record) : Except Error Projection :=
  applyWith true projection record

def isClaimable (projection : Projection) (eventId : Bytes) (nowMs : UInt64) : Bool :=
  match (projection.findByEventId eventId).bind fun index => projection.entries[index]? with
  | none => false
  | some record =>
      match record.deliveryState with
      | .published | .expired => true
      | .leased | .received => record.leaseDeadlineMs ≤ nowMs
      | .settledOk | .settledError => false

def isSettled (projection : Projection) (idempotencyKey : Bytes) : Bool :=
  match (projection.findByIdempotencyKey idempotencyKey).bind
      fun index => projection.entries[index]? with
  | none => false
  | some record => record.deliveryState.settled

/-! ## Lookups -/

theorem entry_of_key (projection : Projection) (key : Bytes) :
    ((projection.findByIdempotencyKey key).bind fun index => projection.entries[index]?) =
      projection.entries.find? fun entry => entry.idempotencyKey = key :=
  Keyed.bind_findIdx?_getElem? _ _

theorem entry_of_eventId (projection : Projection) (id : Bytes) :
    ((projection.findByEventId id).bind fun index => projection.entries[index]?) =
      projection.entries.find? fun entry => entry.eventId = id :=
  Keyed.bind_findIdx?_getElem? _ _

variable {projection final : Projection} {record : Record} {records : List Record}

theorem eventId_ne_of_findByEventId {id : Bytes} (h : projection.findByEventId id = none) :
    ∀ entry ∈ projection.entries, entry.eventId ≠ id := by
  simpa [findByEventId] using h

/-- `apply` is its check followed by its update. -/
theorem apply_ok_iff {next : Projection} :
    projection.apply record = .ok next ↔
      projection.validate record = .ok () ∧ next = projection.put record := by
  unfold apply applyWith
  cases projection.validate record with
  | error err => simp
  | ok _ => simp [eq_comm]

theorem apply_of_validate (h : projection.validate record = .ok ()) :
    projection.apply record = .ok (projection.put record) :=
  apply_ok_iff.mpr ⟨h, rfl⟩

/-! ## The representation invariant -/

/-- Event ids are distinct, and so are idempotency keys. -/
structure WellFormed (projection : Projection) : Prop where
  eventIds : (projection.entries.map Record.eventId).Nodup
  keys : (projection.entries.map Record.idempotencyKey).Nodup

theorem wellFormed_init : WellFormed init where
  eventIds := List.nodup_nil
  keys := List.nodup_nil

/-- What `validate` accepts: a later sequence number, a key that no other event
holds, and an allowed transition of the stored entry. -/
theorem WellFormed.validate_ok_iff (h : projection.WellFormed) (record : Record) :
    projection.validate record = .ok () ↔
      projection.lastSequence < record.sequence ∧
      (∀ entry ∈ projection.entries, entry.idempotencyKey = record.idempotencyKey →
        entry.eventId = record.eventId) ∧
      (∀ entry ∈ projection.entries, entry.eventId = record.eventId →
        allowed entry.deliveryState record.deliveryState = true) := by
  have hkey : ((projection.entries.find? fun entry =>
        entry.idempotencyKey = record.idempotencyKey).any
          fun existing => existing.eventId ≠ record.eventId) = false ↔
      ∀ entry ∈ projection.entries, entry.idempotencyKey = record.idempotencyKey →
        entry.eventId = record.eventId := by
    rw [Keyed.any_find?_eq_false_iff h.keys]
    simp
  have hevent : ((projection.entries.find? fun entry => entry.eventId = record.eventId).any
          fun previous => !allowed previous.deliveryState record.deliveryState) = false ↔
      ∀ entry ∈ projection.entries, entry.eventId = record.eventId →
        allowed entry.deliveryState record.deliveryState = true := by
    rw [Keyed.any_find?_eq_false_iff h.eventIds]
    simp
  rw [← hkey, ← hevent, ← UInt64.not_le]
  unfold validate
  rw [entry_of_key, entry_of_eventId]
  split
  · next hseq => simp [hseq]
  · next hseq =>
      split
      · next hconflict =>
          rw [hconflict]
          simp
      · next hconflict =>
          split
          · next hforbidden => simp [hforbidden]
          · next hforbidden =>
              rw [Bool.not_eq_true] at hconflict hforbidden
              rw [hconflict, hforbidden]
              simp [hseq]

/-- The rows after an update: the record, and the old rows of other events. -/
theorem WellFormed.mem_put (h : projection.WellFormed) {entry : Record} :
    entry ∈ (projection.put record).entries ↔
      entry = record ∨ entry ∈ projection.entries ∧ entry.eventId ≠ record.eventId := by
  unfold put
  cases hindex : projection.findByEventId record.eventId with
  | some index => exact Keyed.mem_set_of_findIdx? h.eventIds hindex
  | none =>
      have hnew := eventId_ne_of_findByEventId hindex
      simp only [List.mem_append, List.mem_singleton]
      constructor
      · rintro (hmem | rfl)
        · exact Or.inr ⟨hmem, hnew entry hmem⟩
        · exact Or.inl rfl
      · rintro (rfl | ⟨hmem, -⟩)
        · exact Or.inr rfl
        · exact Or.inl hmem

@[simp] theorem put_lastSequence (projection : Projection) (record : Record) :
    (projection.put record).lastSequence = record.sequence := by
  unfold put
  split <;> rfl

/-- The update keeps the event ids apart. -/
theorem WellFormed.eventIds_put (h : projection.WellFormed) (record : Record) :
    ((projection.put record).entries.map Record.eventId).Nodup := by
  unfold put
  cases hindex : projection.findByEventId record.eventId with
  | some index =>
      show ((projection.entries.set index record).map Record.eventId).Nodup
      rw [Keyed.map_key_set_of_findIdx? hindex rfl]
      exact h.eventIds
  | none =>
      exact Keyed.nodup_concat h.eventIds (eventId_ne_of_findByEventId hindex)

/-- An accepted update keeps the idempotency keys apart: `validate` refuses a key
that another event holds. -/
theorem WellFormed.keys_put (h : projection.WellFormed)
    (hvalid : projection.validate record = .ok ()) :
    ((projection.put record).entries.map Record.idempotencyKey).Nodup := by
  obtain ⟨-, hkeys, -⟩ := (h.validate_ok_iff record).mp hvalid
  unfold put
  cases hindex : projection.findByEventId record.eventId with
  | some index =>
      refine Keyed.nodup_map_set_of_findIdx? h.eventIds h.keys hindex ?_
      intro other hmem hevent hkey
      exact hevent (hkeys other hmem hkey)
  | none =>
      -- an entry with the same key would be an entry of the same event
      have hnew := eventId_ne_of_findByEventId hindex
      refine Keyed.nodup_concat h.keys fun other hmem hkey => ?_
      exact hnew other hmem (hkeys other hmem hkey)

/-- **The representation invariant is preserved by every accepted record.** -/
theorem WellFormed.apply {next : Projection} (h : projection.WellFormed)
    (happly : projection.apply record = .ok next) : next.WellFormed := by
  obtain ⟨hvalid, rfl⟩ := apply_ok_iff.mp happly
  exact ⟨h.eventIds_put record, h.keys_put hvalid⟩

/-- A key is settled when an entry with that key is in a settled state. -/
theorem WellFormed.isSettled_iff (h : projection.WellFormed) {key : Bytes} :
    projection.isSettled key = true ↔
      ∃ entry ∈ projection.entries, entry.idempotencyKey = key ∧
        entry.deliveryState.settled = true := by
  unfold isSettled
  rw [entry_of_key]
  cases hfind : projection.entries.find? fun entry => entry.idempotencyKey = key with
  | none =>
      have hnone := Keyed.find?_eq_none_iff.mp hfind
      simp only [Bool.false_eq_true, false_iff]
      rintro ⟨entry, hmem, hkey, -⟩
      exact hnone entry hmem hkey
  | some found =>
      obtain ⟨hfound, hkey⟩ := (Keyed.find?_eq_some_iff h.keys).mp hfind
      constructor
      · intro hsettled
        exact ⟨found, hfound, hkey, hsettled⟩
      · rintro ⟨entry, hmem, hentry, hsettled⟩
        rw [Keyed.eq_of_key_eq h.keys hfound hmem (hkey.trans hentry.symm)]
        exact hsettled

/-- A settled event is never claimable again. -/
theorem WellFormed.isClaimable_eq_false (h : projection.WellFormed) {entry : Record}
    (hmem : entry ∈ projection.entries) (hsettled : entry.deliveryState.settled = true)
    (nowMs : UInt64) :
    projection.isClaimable entry.eventId nowMs = false := by
  unfold isClaimable
  rw [entry_of_eventId, (Keyed.find?_eq_some_iff h.eventIds).mpr ⟨hmem, rfl⟩]
  cases hstate : entry.deliveryState <;> simp_all [State.settled]

/-! ## Sequences of records -/

/-- Apply records in order, as a replay does. -/
def applyAll (projection : Projection) (records : List Record) : Except Error Projection :=
  records.foldlM apply projection

@[simp] theorem applyAll_nil (projection : Projection) :
    projection.applyAll [] = .ok projection := rfl

theorem applyAll_append_singleton {middle : Projection}
    (h : projection.applyAll records = .ok middle) :
    projection.applyAll (records ++ [record]) = middle.apply record := by
  unfold applyAll at h ⊢
  rw [List.foldlM_append, h]
  simp [bind, Except.bind, pure, Except.pure]
  cases middle.apply record <;> rfl

theorem applyAll_cons_ok_iff :
    projection.applyAll (record :: records) = .ok final ↔
      ∃ middle, projection.apply record = .ok middle ∧ middle.applyAll records = .ok final := by
  unfold applyAll
  rw [List.foldlM_cons]
  cases projection.apply record with
  | error err => simp [bind, Except.bind]
  | ok middle => simp [bind, Except.bind]

/-- `validate` demands a later sequence number. -/
theorem lt_of_validate (h : projection.validate record = .ok ()) :
    projection.lastSequence < record.sequence := by
  unfold validate at h
  split at h
  · cases h
  · next hseq => exact UInt64.not_le.mp hseq

/-- Records that are accepted in order have strictly increasing sequence numbers,
all of them beyond the starting point. -/
theorem applyAll_sequences (h : projection.applyAll records = .ok final) :
    records.Pairwise (fun earlier later => earlier.sequence < later.sequence) ∧
      ∀ record ∈ records, projection.lastSequence < record.sequence := by
  induction records generalizing projection with
  | nil => simp
  | cons record records ih =>
      obtain ⟨middle, hfirst, hrest⟩ := applyAll_cons_ok_iff.mp h
      obtain ⟨hvalid, rfl⟩ := apply_ok_iff.mp hfirst
      obtain ⟨hpairwise, hbeyond⟩ := ih hrest
      rw [put_lastSequence] at hbeyond
      have hlt := lt_of_validate hvalid
      exact ⟨List.pairwise_cons.mpr ⟨hbeyond, hpairwise⟩, List.forall_mem_cons.mpr
        ⟨hlt, fun other hlater => UInt64.lt_trans hlt (hbeyond other hlater)⟩⟩

theorem WellFormed.applyAll (h : projection.WellFormed)
    (happly : projection.applyAll records = .ok final) :
    final.WellFormed := by
  induction records generalizing projection with
  | nil =>
      cases happly
      exact h
  | cons record records ih =>
      obtain ⟨middle, hfirst, hrest⟩ := applyAll_cons_ok_iff.mp happly
      exact ih (h.apply hfirst) hrest

end Projection
end Ubiq.Settlement
