import Ubiq.Locking.LeaseLockTable

/-!
# When the lock table is full

A slot belongs to its key for ever: `release` and `reapExpired` clear its flag, and `acquire` uses it
again for the same key only. So a refusal means that the locks are held only if none of them was
released or has expired.
-/

namespace Ubiq.Locking

open Foundation

/-- The lock is in force at this time. -/
def Lock.Held (nowMs : Nat) (lock : Lock) : Prop :=
  lock.active = true ∧ nowMs < lock.expiresAtMs

instance decidableLockHeld (nowMs : Nat) (lock : Lock) : Decidable (lock.Held nowMs) :=
  inferInstanceAs (Decidable (_ ∧ _))

namespace LeaseLockTable

variable {capacity : Nat} {table : LeaseLockTable capacity}

/-! ## The keys of the slots -/

/-- The keys of the slots, in their order. -/
def keys (table : LeaseLockTable capacity) : List Bytes :=
  table.locks.map Lock.key

theorem slot_eq_none_iff {key : Bytes} : table.slot key = none ↔ key ∉ table.keys := by
  constructor
  · intro h hmem
    obtain ⟨lock, hlock, hkey⟩ := List.mem_map.mp hmem
    exact slot_eq_none h lock hlock hkey
  · intro h
    cases hslot : table.slot key with
    | none => rfl
    | some found =>
        obtain ⟨index, lock⟩ := found
        obtain ⟨hmem, hkey⟩ := Table.mem_of_lookup (slot_eq_some hslot).2
        exact absurd (List.mem_map.mpr ⟨lock, hmem, hkey⟩) h

/-! ## Refusals -/

/-- `acquire` refuses a key exactly when it has no slot and none is free. -/
theorem acquire_tableFull_iff {key owner : Bytes} {nowMs ttlMs : Nat} :
    (table.acquire key owner nowMs ttlMs).2 = .error .tableFull ↔
      key ∉ table.keys ∧ table.locks.length = capacity := by
  have hbounded := table.bounded
  rw [← slot_eq_none_iff]
  unfold acquire
  cases hslot : table.slot key with
  | some found =>
      simp only [reduceCtorEq, false_and, iff_false]
      split_ifs <;> simp
  | none =>
      simp only [true_and]
      split_ifs with hfull
      · simp only [true_iff]
        omega
      · simp only [false_iff]
        omega

/-- A refusal for want of a slot means that as many locks as the table has slots are in force, all
of them on other keys. -/
def FullOnlyWhenHeld (table : LeaseLockTable capacity) : Action → Prop
  | .acquire key owner nowMs ttlMs =>
      (table.perform (.acquire key owner nowMs ttlMs)).2 = .failed .tableFull →
        table.locks.countP (fun lock => lock.key ≠ key ∧ lock.Held nowMs) = capacity
  | _ => True

/-- The key of an `acquire` has a slot, or there is a free one, or every lock is in force. -/
def RoomOrHeld (table : LeaseLockTable capacity) : Action → Prop
  | .acquire key _ nowMs _ =>
      key ∈ table.keys ∨ table.locks.length < capacity ∨ ∀ lock ∈ table.locks, lock.Held nowMs
  | _ => True

theorem failed_tableFull_iff {key owner : Bytes} {nowMs ttlMs : Nat} :
    (table.perform (.acquire key owner nowMs ttlMs)).2 = .failed .tableFull ↔
      (table.acquire key owner nowMs ttlMs).2 = .error .tableFull := by
  show Reply.ofGeneration (table.acquire key owner nowMs ttlMs).2 = _ ↔ _
  cases (table.acquire key owner nowMs ttlMs).2 with
  | ok generation => simp [Reply.ofGeneration]
  | error err => simp [Reply.ofGeneration]

theorem fullOnlyWhenHeld_iff_roomOrHeld (action : Action) :
    table.FullOnlyWhenHeld action ↔ table.RoomOrHeld action := by
  cases action with
  | acquire key owner nowMs ttlMs =>
      have hbounded := table.bounded
      simp only [FullOnlyWhenHeld, RoomOrHeld, failed_tableFull_iff, acquire_tableFull_iff]
      constructor
      · intro h
        by_cases hkey : key ∈ table.keys
        · exact .inl hkey
        · by_cases hfull : table.locks.length = capacity
          · have hcount := (h ⟨hkey, hfull⟩).trans hfull.symm
            have hall := List.countP_eq_length.mp hcount
            exact .inr (.inr fun lock hlock => (of_decide_eq_true (hall lock hlock)).2)
          · exact .inr (.inl (by omega))
      · rintro h ⟨hkey, hfull⟩
        rcases h with hpresent | hroom | hheld
        · exact absurd hpresent hkey
        · omega
        · refine (List.countP_eq_length.mpr fun lock hlock => ?_).trans hfull
          have hother : lock.key ≠ key := fun heq => hkey (heq ▸ List.mem_map_of_mem hlock)
          exact decide_eq_true ⟨hother, hheld lock hlock⟩
  | _ => exact Iff.rfl

/-- **Full means held.** In a run of a new table every refusal for want of a slot is justified by
the locks in force exactly when every `acquire` comes at a key with a slot, at a free slot, or while
all the locks of the table are in force. -/
theorem fullOnlyWhenHeld_iff (capacity : Nat) (actions : List Action) :
    Execution.Along (Execution.after perform) FullOnlyWhenHeld (empty capacity) actions ↔
      Execution.Along (Execution.after perform) RoomOrHeld (empty capacity) actions :=
  Execution.along_iff (motive := fun _ => True) (fun _ _ _ _ => trivial)
    (fun _ action _ => fullOnlyWhenHeld_iff_roomOrHeld action) trivial actions

/-- The only slot stays with its key after the release: the next key is refused although no lock
is held. -/
theorem not_fullOnlyWhenHeld_released :
    ¬Execution.Along (Execution.after perform) FullOnlyWhenHeld (empty 1)
      [.acquire (ascii "invoice:1") (ascii "worker-a") 0 10,
        .release (ascii "invoice:1") (ascii "worker-a"),
        .acquire (ascii "invoice:2") (ascii "worker-a") 20 10] := by
  rintro ⟨-, -, hfull, -⟩
  exact absurd (hfull (by decide +kernel)) (by decide +kernel)

end LeaseLockTable
end Ubiq.Locking
