import Ubiq.Foundation.Bytes
import Ubiq.Foundation.Execution
import Ubiq.Foundation.Slots
import Ubiq.Foundation.Table

/-!
# The idempotency table

`IdempotencyTable` of `security_runtime.zig`. The first `begin` of a key and an operation writes a
record that binds the digest of the payload; later ones return the outcome in it, and `settle`
overwrites the outcome, whatever it was.

Lookups describe the table: `record?_begin_of_some`, `record?_begin_of_none` and `record?_settle` say
what a call does to the record of any pair. That the pairs are distinct and their digests fixed holds
in every run; that a final outcome stays is left to the callers of `settle`.
-/

namespace Ubiq.Security

open Foundation

inductive Outcome
  | dispatched
  | effectUnknown
  | settledSuccess
  | settledFailure
deriving DecidableEq, Repr

/-- The outcomes that say how the effect ended. -/
def Outcome.Final : Outcome → Prop
  | .settledSuccess | .settledFailure => True
  | .dispatched | .effectUnknown => False

/-- The errors of `SecurityRuntimeError` that the idempotency table returns. -/
inductive IdempotencyError
  | idempotencyConflict
  | idempotencyTableFull
  | unknownIdempotencyKey
deriving DecidableEq, Repr

structure IdempotencyRecord where
  key : Bytes
  operation : Bytes
  payloadDigest : Bytes
  outcome : Outcome
deriving DecidableEq, Repr

/-- What identifies a record. -/
def IdempotencyRecord.pair (record : IdempotencyRecord) : Bytes × Bytes :=
  (record.key, record.operation)

/-- The assignment of `settle`. -/
def IdempotencyRecord.settle (outcome : Outcome) (record : IdempotencyRecord) :
    IdempotencyRecord :=
  { record with outcome := outcome }

@[simp] theorem IdempotencyRecord.pair_settle (outcome : Outcome) (record : IdempotencyRecord) :
    (record.settle outcome).pair = record.pair := rfl

/-- `IdempotencyTable`: the entries are `records[0..len]`. -/
structure IdempotencyTable (capacity : Nat) extends Slots IdempotencyRecord capacity

/-- The calls. -/
inductive IdempotencyCall
  | begin (key operation payloadDigest : Bytes)
  | settle (key operation : Bytes) (outcome : Outcome)
deriving DecidableEq, Repr

namespace IdempotencyTable

variable {capacity : Nat} {table : IdempotencyTable capacity} {key operation : Bytes}
  {record : IdempotencyRecord}

/-- The table before its first call. -/
def empty (capacity : Nat) : IdempotencyTable capacity where
  toSlots := Slots.empty IdempotencyRecord capacity

def find (table : IdempotencyTable capacity) (key operation : Bytes) : Option Nat :=
  table.entries.findIdx? fun record => record.pair = (key, operation)

/-- The record that `find` points at. -/
def record? (table : IdempotencyTable capacity) (key operation : Bytes) :
    Option IdempotencyRecord :=
  (table.find key operation).bind fun index => table.entries[index]?

/-- Change the record at an index. -/
def modify (table : IdempotencyTable capacity) (index : Nat)
    (change : IdempotencyRecord → IdempotencyRecord) : IdempotencyTable capacity where
  entries := table.entries.modify index change
  bounded := by
    rw [List.length_modify]
    exact table.bounded

def begin (table : IdempotencyTable capacity) (key operation payloadDigest : Bytes) :
    IdempotencyTable capacity × Except IdempotencyError Outcome :=
  match table.record? key operation with
  | some record =>
      if record.payloadDigest ≠ payloadDigest then (table, .error .idempotencyConflict)
      else (table, .ok record.outcome)
  | none =>
      if h : table.entries.length < capacity then
        (⟨table.push ⟨key, operation, payloadDigest, .dispatched⟩ h⟩, .ok .dispatched)
      else (table, .error .idempotencyTableFull)

def settle (table : IdempotencyTable capacity) (key operation : Bytes) (outcome : Outcome) :
    IdempotencyTable capacity × Except IdempotencyError Unit :=
  match table.find key operation with
  | none => (table, .error .unknownIdempotencyKey)
  | some index => (table.modify index (.settle outcome), .ok ())

def get (table : IdempotencyTable capacity) (key operation : Bytes) : Option Outcome :=
  (table.record? key operation).map IdempotencyRecord.outcome

/-- The table after a call. -/
def perform (table : IdempotencyTable capacity) : IdempotencyCall → IdempotencyTable capacity
  | .begin key operation payloadDigest => (table.begin key operation payloadDigest).1
  | .settle key operation outcome => (table.settle key operation outcome).1

/-- The tables of a capacity. -/
def reached (capacity : Nat) (calls : List IdempotencyCall) : IdempotencyTable capacity :=
  Execution.run perform (empty capacity) calls

/-! ## Records of a table -/

theorem record?_eq_lookup (table : IdempotencyTable capacity) (key operation : Bytes) :
    table.record? key operation =
      Table.lookup IdempotencyRecord.pair (key, operation) table.entries :=
  Keyed.bind_findIdx?_getElem? _ _

theorem record?_eq_none_iff :
    table.record? key operation = none ↔
      ∀ record ∈ table.entries, record.pair ≠ (key, operation) := by
  rw [record?_eq_lookup]
  exact Table.lookup_eq_none_iff

/-- `settle` changes the outcome of its pair and no other record. -/
theorem record?_settle (key operation : Bytes) (outcome : Outcome) (otherKey otherOperation : Bytes) :
    (table.settle key operation outcome).1.record? otherKey otherOperation =
      if (otherKey, otherOperation) = (key, operation) then
        (table.record? otherKey otherOperation).map (.settle outcome)
      else table.record? otherKey otherOperation := by
  unfold settle
  cases hfind : table.find key operation with
  | none =>
      have hnone : table.record? key operation = none := by simp [record?, hfind]
      split_ifs with hpair
      · cases hpair
        simp [hnone]
      · rfl
  | some index =>
      rw [record?_eq_lookup, record?_eq_lookup]
      exact Table.lookup_modify (IdempotencyRecord.pair_settle outcome) hfind _

/-- `begin` leaves the records of the table as they are. -/
theorem record?_begin_of_some (h : table.record? key operation = some record)
    (otherKey otherOperation payloadDigest : Bytes) :
    (table.begin otherKey otherOperation payloadDigest).1.record? key operation = some record := by
  unfold begin
  split
  · split_ifs
    · exact h
    · exact h
  · next hnone =>
      split_ifs
      · have hnew := record?_eq_none_iff.mp hnone
        have hne : (otherKey, otherOperation) ≠ (key, operation) := by
          intro heq
          cases heq
          cases h.symm.trans hnone
        rw [record?_eq_lookup] at h ⊢
        exact (Table.lookup_concat hnew _).trans ((if_neg hne).trans h)
      · exact h

/-- The first `begin` of a pair binds its digest. -/
theorem record?_begin_of_none (h : table.record? key operation = none)
    {payloadDigest : Bytes} {outcome : Outcome}
    (hok : (table.begin key operation payloadDigest).2 = .ok outcome) :
    (table.begin key operation payloadDigest).1.record? key operation =
      some ⟨key, operation, payloadDigest, .dispatched⟩ := by
  have hnew := record?_eq_none_iff.mp h
  simp only [begin, h] at hok ⊢
  split_ifs at hok ⊢
  rw [record?_eq_lookup]
  exact (Table.lookup_concat hnew _).trans (if_pos rfl)

theorem begin_of_some (h : table.record? key operation = some record) (payloadDigest : Bytes) :
    table.begin key operation payloadDigest =
      if record.payloadDigest ≠ payloadDigest then (table, .error .idempotencyConflict)
      else (table, .ok record.outcome) := by
  simp only [begin, h]

/-! ## What every call keeps -/

/-- No two records have the same key and operation. -/
def Distinct (table : IdempotencyTable capacity) : Prop :=
  (table.entries.map IdempotencyRecord.pair).Nodup

theorem Distinct.perform (h : table.Distinct) (call : IdempotencyCall) :
    (table.perform call).Distinct := by
  cases call with
  | begin key operation payloadDigest =>
      simp only [IdempotencyTable.perform, IdempotencyTable.begin]
      split
      · split_ifs
        · exact h
        · exact h
      · next hnone =>
          split_ifs
          · exact Keyed.nodup_concat h (record?_eq_none_iff.mp hnone)
          · exact h
  | settle key operation outcome =>
      simp only [IdempotencyTable.perform, IdempotencyTable.settle]
      split
      · exact h
      · next index _ =>
          show ((table.entries.modify index _).map IdempotencyRecord.pair).Nodup
          rw [Table.map_key_modify (IdempotencyRecord.pair_settle outcome)]
          exact h

theorem distinct_reached (capacity : Nat) (calls : List IdempotencyCall) :
    (reached capacity calls).Distinct := by
  have hstart : (empty capacity).Distinct := List.nodup_nil
  exact Execution.invariant_run_of_step (fun _ call h => h.perform call) hstart calls

/-- A record keeps its digest in every call. -/
theorem digest_perform (h : table.record? key operation = some record) (call : IdempotencyCall) :
    ∃ later, (table.perform call).record? key operation = some later ∧
      later.payloadDigest = record.payloadDigest := by
  cases call with
  | begin otherKey otherOperation payloadDigest =>
      exact ⟨record, record?_begin_of_some h _ _ _, rfl⟩
  | settle otherKey otherOperation outcome =>
      simp only [perform, record?_settle, h]
      split_ifs
      · exact ⟨record.settle outcome, rfl, rfl⟩
      · exact ⟨record, rfl, rfl⟩

theorem digest_run (h : table.record? key operation = some record) (calls : List IdempotencyCall) :
    ∃ later, (Execution.run perform table calls).record? key operation = some later ∧
      later.payloadDigest = record.payloadDigest := by
  refine Execution.invariant_run_of_step
    (motive := fun state : IdempotencyTable capacity => ∃ later,
      state.record? key operation = some later ∧ later.payloadDigest = record.payloadDigest)
    ?_ ⟨record, h, rfl⟩ calls
  rintro state call ⟨later, hlater, hdigest⟩
  obtain ⟨next, hnext, hsame⟩ := digest_perform hlater call
  exact ⟨next, hnext, hsame.trans hdigest⟩

/-! ## Final outcomes -/

/-- A pair whose outcome is final is settled with the same outcome only. -/
def SettlesOnce (table : IdempotencyTable capacity) : IdempotencyCall → Prop
  | .settle key operation outcome =>
      ∀ recorded, table.get key operation = some recorded → recorded.Final → outcome = recorded
  | .begin _ _ _ => True

theorem final_perform (h : table.record? key operation = some record) (hfinal : record.outcome.Final)
    {call : IdempotencyCall} (hcall : table.SettlesOnce call) :
    (table.perform call).record? key operation = some record := by
  cases call with
  | begin otherKey otherOperation payloadDigest => exact record?_begin_of_some h _ _ _
  | settle otherKey otherOperation outcome =>
      simp only [perform, record?_settle, h]
      split_ifs with hpair
      · cases hpair
        rw [hcall record.outcome (by simp [get, h]) hfinal]
        rfl
      · rfl

theorem final_run (h : table.record? key operation = some record) (hfinal : record.outcome.Final)
    {calls : List IdempotencyCall} (hcalls : Execution.Along perform SettlesOnce table calls) :
    (Execution.run perform table calls).record? key operation = some record := by
  have hstep : ∀ (state : IdempotencyTable capacity) (call : IdempotencyCall),
      state.record? key operation = some record → state.SettlesOnce call →
        (state.perform call).record? key operation = some record :=
    fun _ _ hstate hcall => final_perform hstate hfinal hcall
  exact Execution.invariant_run hstep h hcalls

/-- What the table promises over the calls of a run. -/
structure Promises (capacity : Nat) (calls : List IdempotencyCall) : Prop where
  /-- The pairs of key and operation are distinct among the records. -/
  distinct : ∀ first, first <+: calls → (reached capacity first).Distinct
  /-- The first `begin` of a pair binds the digest … -/
  binds : ∀ first, first <+: calls → ∀ key operation payloadDigest outcome,
    (reached capacity first).record? key operation = none →
      ((reached capacity first).begin key operation payloadDigest).2 = .ok outcome →
        ∃ record, ((reached capacity first).begin key operation payloadDigest).1.record? key
          operation = some record ∧ record.payloadDigest = payloadDigest
  /-- … which never changes … -/
  bound : ∀ first middle, first ++ middle <+: calls → ∀ key operation record,
    (reached capacity first).record? key operation = some record →
      ∃ later, (reached capacity (first ++ middle)).record? key operation = some later ∧
        later.payloadDigest = record.payloadDigest
  /-- … and a `begin` with another digest fails and changes nothing. -/
  conflict : ∀ first, first <+: calls → ∀ key operation record payloadDigest,
    (reached capacity first).record? key operation = some record →
      record.payloadDigest ≠ payloadDigest →
        (reached capacity first).begin key operation payloadDigest =
          (reached capacity first, .error .idempotencyConflict)
  /-- A final outcome stays, and `begin` with the bound digest returns it. -/
  final : ∀ first middle, first ++ middle <+: calls → ∀ key operation record,
    (reached capacity first).record? key operation = some record → record.outcome.Final →
      (reached capacity (first ++ middle)).get key operation = some record.outcome ∧
        ((reached capacity (first ++ middle)).begin key operation record.payloadDigest).2 =
          .ok record.outcome

/-- Along calls that settle once, a final outcome is there to stay. -/
theorem get_of_final {first middle calls : List IdempotencyCall} (hpart : first ++ middle <+: calls)
    (halong : Execution.Along perform SettlesOnce (empty capacity) calls)
    (h : (reached capacity first).record? key operation = some record)
    (hfinal : record.outcome.Final) :
    (reached capacity (first ++ middle)).record? key operation = some record := by
  obtain ⟨rest, rfl⟩ := hpart
  rw [Execution.along_append, Execution.along_append] at halong
  rw [reached, Execution.run_append]
  exact final_run h hfinal halong.1.2

/-- **Idempotency outcomes are final** exactly when no `settle` of the run replaces a final outcome by
another one; all the other promises hold in every run. -/
theorem promises_iff (capacity : Nat) (calls : List IdempotencyCall) :
    Promises capacity calls ↔ Execution.Along perform SettlesOnce (empty capacity) calls := by
  constructor
  · intro h
    by_contra hbroken
    obtain ⟨first, call, rest, rfl, hcall⟩ := Execution.exists_of_not_along hbroken
    cases call with
    | begin key operation payloadDigest => exact hcall trivial
    | settle key operation outcome =>
        refine hcall fun recorded hget hfinal => ?_
        obtain ⟨record, hrecord, rfl⟩ := Option.map_eq_some_iff.mp hget
        have hpart : first ++ [.settle key operation outcome] <+:
            first ++ .settle key operation outcome :: rest := ⟨rest, by simp⟩
        have hkept := (h.final first _ hpart key operation record hrecord hfinal).1
        -- The call that is looked at has written its own outcome.
        have hwritten : (reached capacity (first ++ [.settle key operation outcome])).record? key
            operation = some (record.settle outcome) := by
          rw [reached, Execution.run_append]
          simp [perform, record?_settle, hrecord]
        rw [get, hwritten] at hkept
        exact Option.some.inj hkept
  · intro h
    refine ⟨fun first _ => distinct_reached capacity first, ?_, ?_, ?_, ?_⟩
    · intro first _ key operation payloadDigest outcome hnone hok
      exact ⟨_, record?_begin_of_none hnone hok, rfl⟩
    · intro first middle _ key operation record hrecord
      rw [reached, Execution.run_append]
      exact digest_run hrecord middle
    · intro first _ key operation record payloadDigest hrecord hdigest
      rw [begin_of_some hrecord, if_pos hdigest]
    · intro first middle hpart key operation record hrecord hfinal
      have hkept := get_of_final hpart h hrecord hfinal
      refine ⟨by simp [get, hkept], ?_⟩
      rw [begin_of_some hkept, if_neg (not_not_intro rfl)]

/-- An effect that was settled as a success is unknown again after a late report. -/
theorem not_promises_resettled :
    ¬Promises 4
      [.begin (ascii "idem") (ascii "Financial.createInvoice") (ascii "digest-a"),
        .settle (ascii "idem") (ascii "Financial.createInvoice") .settledSuccess,
        .settle (ascii "idem") (ascii "Financial.createInvoice") .effectUnknown] := by
  intro h
  have hfinal := h.final
    [.begin (ascii "idem") (ascii "Financial.createInvoice") (ascii "digest-a"),
      .settle (ascii "idem") (ascii "Financial.createInvoice") .settledSuccess]
    [.settle (ascii "idem") (ascii "Financial.createInvoice") .effectUnknown]
    List.prefix_rfl (ascii "idem") (ascii "Financial.createInvoice")
    ⟨ascii "idem", ascii "Financial.createInvoice", ascii "digest-a", .settledSuccess⟩
    (by decide +kernel) trivial
  exact absurd hfinal.1 (by decide +kernel)

end IdempotencyTable
end Ubiq.Security
