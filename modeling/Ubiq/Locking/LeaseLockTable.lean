import Ubiq.Foundation.Bytes
import Ubiq.Foundation.Execution
import Ubiq.Foundation.Slots
import Ubiq.Foundation.Table

/-!
# The lease lock table

`LeaseLockTable` of `lock.zig`. The slice `locks[0..len]` of its array is a list that is no
longer than the capacity; a slot is never removed, and an expired or released lock is
reacquired in place. The generation counter is a `u64` that wraps around to one. Times are
natural numbers, so the deadlines of `acquire` and `renew` do not overflow.

`Effect` says what a call can do, one constructor per outcome.
-/

namespace Ubiq.Locking

open Foundation

inductive LockError
  | tableFull
  | alreadyLocked
  | notOwner
  | unknownLock
  | expired
deriving DecidableEq, Repr

structure Lock where
  key : Bytes
  owner : Bytes
  expiresAtMs : Nat
  generation : UInt64
  active : Bool := true
deriving DecidableEq, Repr

structure LeaseLockTable (capacity : Nat) where
  locks : List Lock
  nextGeneration : UInt64 := 1
  bounded : locks.length ≤ capacity

/-- The table before its first call. -/
def LeaseLockTable.empty (capacity : Nat) : LeaseLockTable capacity where
  locks := []
  bounded := Nat.zero_le capacity

/-- The counter after `takeGeneration`, which returns the counter before. -/
def generationAfter (generation : UInt64) : UInt64 :=
  if generation + 1 = 0 then 1 else generation + 1

/-- The slot of an existing key after `acquire`. -/
def Lock.reacquire (owner : Bytes) (nowMs ttlMs : Nat) (generation : UInt64) (lock : Lock) : Lock :=
  { lock with owner := owner, expiresAtMs := nowMs + ttlMs, generation := generation, active := true }

/-- The slot after `renew`. -/
def Lock.extend (nowMs ttlMs : Nat) (lock : Lock) : Lock :=
  { lock with expiresAtMs := nowMs + ttlMs }

/-- The slot after `release`. -/
def Lock.deactivate (lock : Lock) : Lock :=
  { lock with active := false }

/-- The slots that `reapExpired` releases. -/
def Lock.due (nowMs : Nat) (lock : Lock) : Bool :=
  lock.active && decide (nowMs ≥ lock.expiresAtMs)

@[simp] theorem Lock.key_reacquire (owner : Bytes) (nowMs ttlMs : Nat) (generation : UInt64)
    (lock : Lock) : (lock.reacquire owner nowMs ttlMs generation).key = lock.key := rfl

@[simp] theorem Lock.key_extend (nowMs ttlMs : Nat) (lock : Lock) :
    (lock.extend nowMs ttlMs).key = lock.key := rfl

@[simp] theorem Lock.key_deactivate (lock : Lock) : lock.deactivate.key = lock.key := rfl

namespace LeaseLockTable

variable {capacity : Nat}

/-- Change the slot at an index. -/
def modify (table : LeaseLockTable capacity) (index : Nat) (change : Lock → Lock) :
    LeaseLockTable capacity where
  locks := table.locks.modify index change
  nextGeneration := table.nextGeneration
  bounded := by
    rw [List.length_modify]
    exact table.bounded

/-- The table after `takeGeneration`. -/
def advance (table : LeaseLockTable capacity) : LeaseLockTable capacity :=
  { table with nextGeneration := generationAfter table.nextGeneration }

def find (table : LeaseLockTable capacity) (key : Bytes) : Option Nat :=
  table.locks.findIdx? fun lock => lock.key = key

/-- The slot of a key. -/
def lookup (table : LeaseLockTable capacity) (key : Bytes) : Option Lock :=
  Table.lookup Lock.key key table.locks

/-- A new slot. -/
def insert (table : LeaseLockTable capacity) (lock : Lock) (h : ¬table.locks.length ≥ capacity) :
    LeaseLockTable capacity where
  locks := table.locks ++ [lock]
  nextGeneration := table.nextGeneration
  bounded := Slots.length_concat_le lock (not_le.mp h)

/-- The position of a key with the slot there. -/
def slot (table : LeaseLockTable capacity) (key : Bytes) : Option (Nat × Lock) :=
  (table.find key).bind fun index => (table.locks[index]?).map fun lock => (index, lock)

def acquire (table : LeaseLockTable capacity) (key owner : Bytes) (nowMs ttlMs : Nat) :
    LeaseLockTable capacity × Except LockError UInt64 :=
  match table.slot key with
  | some (index, existing) =>
      if existing.active ∧ nowMs < existing.expiresAtMs then (table, .error .alreadyLocked)
      else
        (table.advance.modify index (.reacquire owner nowMs ttlMs table.nextGeneration),
          .ok table.nextGeneration)
  | none =>
      if h : table.locks.length ≥ capacity then (table, .error .tableFull)
      else
        (table.advance.insert
          { key := key, owner := owner, expiresAtMs := nowMs + ttlMs,
            generation := table.nextGeneration } h,
          .ok table.nextGeneration)

def renew (table : LeaseLockTable capacity) (key owner : Bytes) (nowMs ttlMs : Nat) :
    LeaseLockTable capacity × Except LockError Unit :=
  match table.slot key with
  | none => (table, .error .unknownLock)
  | some (index, lock) =>
      if !lock.active ∨ nowMs ≥ lock.expiresAtMs then (table, .error .expired)
      else if lock.owner ≠ owner then (table, .error .notOwner)
      else (table.modify index (.extend nowMs ttlMs), .ok ())

def release (table : LeaseLockTable capacity) (key owner : Bytes) :
    LeaseLockTable capacity × Except LockError Unit :=
  match table.slot key with
  | none => (table, .error .unknownLock)
  | some (index, lock) =>
      if !lock.active then (table, .error .unknownLock)
      else if lock.owner ≠ owner then (table, .error .notOwner)
      else (table.modify index .deactivate, .ok ())

def validateFence (table : LeaseLockTable capacity) (key owner : Bytes) (generation : UInt64)
    (nowMs : Nat) : Bool :=
  match table.slot key with
  | none => false
  | some (_, lock) =>
      lock.active && decide (nowMs < lock.expiresAtMs) && decide (lock.generation = generation) &&
        decide (lock.owner = owner)

def reapExpired (table : LeaseLockTable capacity) (nowMs : Nat) : LeaseLockTable capacity where
  locks := Table.update (Lock.due nowMs) .deactivate table.locks
  nextGeneration := table.nextGeneration
  bounded := by
    rw [Table.update, List.length_map]
    exact table.bounded

end LeaseLockTable

/-! ## Runs -/

/-- The calls. -/
inductive Action
  | acquire (key owner : Bytes) (nowMs ttlMs : Nat)
  | renew (key owner : Bytes) (nowMs ttlMs : Nat)
  | release (key owner : Bytes)
  | reapExpired (nowMs : Nat)
  | validateFence (key owner : Bytes) (generation : UInt64) (nowMs : Nat)
deriving DecidableEq, Repr

/-- What a call returns. -/
inductive Reply
  | granted (generation : UInt64)
  | done
  | verdict (valid : Bool)
  | failed (err : LockError)
deriving DecidableEq, Repr

/-- The reply of `acquire`. -/
def Reply.ofGeneration : Except LockError UInt64 → Reply
  | .ok generation => .granted generation
  | .error err => .failed err

/-- The reply of a call that returns nothing. -/
def Reply.ofUnit : Except LockError Unit → Reply
  | .ok _ => .done
  | .error err => .failed err

/-- A call and what it returned. -/
abbrev Event := Action × Reply

namespace LeaseLockTable

variable {capacity index nowMs : Nat} {table : LeaseLockTable capacity} {key : Bytes}

/-- A call on the table. -/
def perform (table : LeaseLockTable capacity) : Action → LeaseLockTable capacity × Reply
  | .acquire key owner nowMs ttlMs => (table.acquire key owner nowMs ttlMs).map id .ofGeneration
  | .renew key owner nowMs ttlMs => (table.renew key owner nowMs ttlMs).map id .ofUnit
  | .release key owner => (table.release key owner).map id .ofUnit
  | .reapExpired nowMs => (table.reapExpired nowMs, .done)
  | .validateFence key owner generation nowMs =>
      (table, .verdict (table.validateFence key owner generation nowMs))

/-! ## Slots -/

theorem slot_eq_some {lock : Lock} (h : table.slot key = some (index, lock)) :
    table.find key = some index ∧ table.lookup key = some lock := by
  obtain ⟨position, hfind, hslot⟩ := Option.bind_eq_some_iff.mp h
  obtain ⟨found, hget, heq⟩ := Option.map_eq_some_iff.mp hslot
  cases heq
  refine ⟨hfind, ?_⟩
  have hlookup := Keyed.bind_findIdx?_getElem? (fun other => decide (Lock.key other = key)) table.locks
  rw [show table.locks.findIdx? (fun other => decide (Lock.key other = key)) = some index from hfind,
    Option.bind_some, hget] at hlookup
  exact hlookup.symm

theorem slot_eq_none (h : table.slot key = none) :
    ∀ lock ∈ table.locks, lock.key ≠ key := by
  cases hfind : table.find key with
  | none =>
      intro lock hmem heq
      have hall := List.findIdx?_eq_none_iff.mp hfind lock hmem
      simp [heq] at hall
  | some index =>
      -- a search that succeeds points into the table
      obtain ⟨hlt, -, -⟩ := List.findIdx?_eq_some_iff_getElem.mp hfind
      rw [slot, hfind, Option.bind_some, List.getElem?_eq_getElem hlt] at h
      cases h

/-- Lookups after the slot of a key is changed. -/
theorem lookup_modify (hfind : table.find key = some index) {change : Lock → Lock}
    (hkey : ∀ lock, (change lock).key = lock.key) (other : Bytes) :
    (table.modify index change).lookup other =
      if other = key then (table.lookup other).map change else table.lookup other :=
  Table.lookup_modify hkey hfind other

theorem map_key_modify {change : Lock → Lock} (hkey : ∀ lock, (change lock).key = lock.key) :
    (table.modify index change).locks.map Lock.key = table.locks.map Lock.key :=
  Table.map_key_modify hkey index

/-- Lookups after a reap. -/
theorem lookup_reapExpired (nowMs : Nat) (key : Bytes) :
    (table.reapExpired nowMs).lookup key =
      (table.lookup key).map fun lock => if lock.due nowMs then lock.deactivate else lock :=
  Table.lookup_update Lock.key_deactivate key

theorem validateFence_eq_true_iff {owner : Bytes} {generation : UInt64} :
    table.validateFence key owner generation nowMs = true ↔
      ∃ lock, table.lookup key = some lock ∧ lock.active = true ∧ nowMs < lock.expiresAtMs ∧
        lock.generation = generation ∧ lock.owner = owner := by
  unfold validateFence
  cases hslot : table.slot key with
  | none =>
      have hnone : table.lookup key = none := Table.lookup_eq_none_iff.mpr (slot_eq_none hslot)
      simp [hnone]
  | some found =>
      obtain ⟨index, lock⟩ := found
      simp [(slot_eq_some hslot).2, and_assoc]

/-! ## What a call can do -/

/-- The slot that `acquire` leaves behind. -/
def grantedLock (table : LeaseLockTable capacity) (key owner : Bytes) (nowMs ttlMs : Nat) : Lock where
  key := key
  owner := owner
  expiresAtMs := nowMs + ttlMs
  generation := table.nextGeneration

/-- The effects of a call, with what makes each of them possible. -/
inductive Effect (table : LeaseLockTable capacity) :
    Action → LeaseLockTable capacity → Reply → Prop
  | failed (action : Action) (err : LockError) : Effect table action table (.failed err)
  | granted (key owner : Bytes) (nowMs ttlMs : Nat) (next : LeaseLockTable capacity)
      (hfree : ∀ lock, table.lookup key = some lock → lock.active = true →
        lock.expiresAtMs ≤ nowMs)
      (hlookup : ∀ other, next.lookup other =
        if other = key then some (table.grantedLock key owner nowMs ttlMs) else table.lookup other)
      (hkeys : (table.locks.map Lock.key).Nodup → (next.locks.map Lock.key).Nodup)
      (hnext : next.nextGeneration = generationAfter table.nextGeneration) :
      Effect table (.acquire key owner nowMs ttlMs) next (.granted table.nextGeneration)
  | renewed (key owner : Bytes) (nowMs ttlMs index : Nat) (hfind : table.find key = some index) :
      Effect table (.renew key owner nowMs ttlMs) (table.modify index (.extend nowMs ttlMs)) .done
  | released (key owner : Bytes) (index : Nat) (hfind : table.find key = some index) :
      Effect table (.release key owner) (table.modify index .deactivate) .done
  | reaped (nowMs : Nat) : Effect table (.reapExpired nowMs) (table.reapExpired nowMs) .done
  | validated (key owner : Bytes) (generation : UInt64) (nowMs : Nat) (valid : Bool) :
      Effect table (.validateFence key owner generation nowMs) table (.verdict valid)

/-- An old slot is granted again. -/
theorem effect_reacquire (owner : Bytes) (ttlMs : Nat) {lock : Lock}
    (hslot : table.slot key = some (index, lock))
    (hfree : ¬(lock.active = true ∧ nowMs < lock.expiresAtMs)) :
    Effect table (.acquire key owner nowMs ttlMs)
      (table.advance.modify index (.reacquire owner nowMs ttlMs table.nextGeneration))
      (.granted table.nextGeneration) := by
  obtain ⟨hfind, hlookup⟩ := slot_eq_some hslot
  refine .granted key owner nowMs ttlMs _ ?_ ?_ ?_ rfl
  · intro found hfound hactive
    obtain rfl : lock = found := Option.some.inj (hlookup.symm.trans hfound)
    exact not_lt.mp fun hlt => hfree ⟨hactive, hlt⟩
  · intro other
    have hadvanced : table.advance.find key = some index := hfind
    rw [lookup_modify hadvanced (Lock.key_reacquire owner nowMs ttlMs table.nextGeneration)]
    by_cases hother : other = key
    · have hsame : table.advance.lookup key = some lock := hlookup
      simp [hother, hsame, Lock.reacquire, grantedLock, (Table.mem_of_lookup hlookup).2]
    · rw [if_neg hother, if_neg hother]
      rfl
  · intro hdistinct
    exact (map_key_modify (Lock.key_reacquire owner nowMs ttlMs table.nextGeneration)).symm ▸ hdistinct

/-- A new slot is granted. -/
theorem effect_insert (owner : Bytes) (nowMs ttlMs : Nat) (hslot : table.slot key = none)
    (hroom : ¬table.locks.length ≥ capacity) :
    Effect table (.acquire key owner nowMs ttlMs)
      (table.advance.insert (table.grantedLock key owner nowMs ttlMs) hroom)
      (.granted table.nextGeneration) := by
  have hnew : ∀ other ∈ table.locks, other.key ≠ (table.grantedLock key owner nowMs ttlMs).key :=
    slot_eq_none hslot
  refine .granted key owner nowMs ttlMs _ ?_ ?_ ?_ rfl
  · intro found hfound
    obtain ⟨hmem, hkey⟩ := Table.mem_of_lookup hfound
    exact absurd hkey (hnew found hmem)
  · intro other
    simp only [eq_comm (a := other)]
    exact Table.lookup_concat hnew other
  · intro hdistinct
    exact Keyed.nodup_concat hdistinct hnew

theorem effect_acquire (key owner : Bytes) (nowMs ttlMs : Nat) :
    Effect table (.acquire key owner nowMs ttlMs)
      (table.perform (.acquire key owner nowMs ttlMs)).1
      (table.perform (.acquire key owner nowMs ttlMs)).2 := by
  cases hslot : table.slot key with
  | some found =>
      obtain ⟨index, lock⟩ := found
      simp only [perform, acquire, hslot]
      split
      · exact .failed _ _
      · next hfree => exact effect_reacquire owner ttlMs hslot hfree
  | none =>
      simp only [perform, acquire, hslot]
      split
      · exact .failed _ _
      · next hroom => exact effect_insert owner nowMs ttlMs hslot hroom

theorem effect_renew (key owner : Bytes) (nowMs ttlMs : Nat) :
    Effect table (.renew key owner nowMs ttlMs)
      (table.perform (.renew key owner nowMs ttlMs)).1
      (table.perform (.renew key owner nowMs ttlMs)).2 := by
  cases hslot : table.slot key with
  | none =>
      simp only [perform, renew, hslot]
      exact .failed _ _
  | some found =>
      obtain ⟨index, lock⟩ := found
      simp only [perform, renew, hslot]
      split
      · exact .failed _ _
      · split
        · exact .failed _ _
        · exact .renewed key owner nowMs ttlMs index (slot_eq_some hslot).1

theorem effect_release (key owner : Bytes) :
    Effect table (.release key owner) (table.perform (.release key owner)).1
      (table.perform (.release key owner)).2 := by
  cases hslot : table.slot key with
  | none =>
      simp only [perform, release, hslot]
      exact .failed _ _
  | some found =>
      obtain ⟨index, lock⟩ := found
      simp only [perform, release, hslot]
      split
      · exact .failed _ _
      · split
        · exact .failed _ _
        · exact .released key owner index (slot_eq_some hslot).1

theorem effect_perform (table : LeaseLockTable capacity) (action : Action) :
    Effect table action (table.perform action).1 (table.perform action).2 := by
  cases action with
  | acquire key owner nowMs ttlMs => exact effect_acquire key owner nowMs ttlMs
  | renew key owner nowMs ttlMs => exact effect_renew key owner nowMs ttlMs
  | release key owner => exact effect_release key owner
  | reapExpired nowMs => exact .reaped nowMs
  | validateFence key owner generation nowMs => exact .validated key owner generation nowMs _

/-- A successful acquire found no slot in force. -/
theorem expires_le_of_acquire {owner : Bytes} {ttlMs : Nat} {generation : UInt64}
    (h : (table.acquire key owner nowMs ttlMs).2 = .ok generation) :
    ∀ lock, table.lookup key = some lock → lock.active = true → lock.expiresAtMs ≤ nowMs := by
  have hreply : (table.perform (.acquire key owner nowMs ttlMs)).2 = .granted generation := by
    show Reply.ofGeneration (table.acquire key owner nowMs ttlMs).2 = _
    rw [h]
    rfl
  have heffect := effect_perform table (.acquire key owner nowMs ttlMs)
  rw [hreply] at heffect
  generalize (table.perform (.acquire key owner nowMs ttlMs)).1 = next at heffect
  cases heffect with
  | granted _ _ _ _ _ hfree => exact hfree

end LeaseLockTable

end Ubiq.Locking
