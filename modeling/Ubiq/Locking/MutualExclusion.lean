import Ubiq.Locking.LeaseLockTable

/-!
# Mutual exclusion and fencing of lease locks

What the calls and their replies say about a lock is a `Holding`: a grant creates it, a renewal
moves its deadline, a release or a reap at or after the deadline ends it. The table is
`Consistent` with the calls so far when its active slots are these holdings, when its counter is
one past the number of grants, and when no slot is older than a grant of its key. Every call
keeps this (`Consistent.step`), and `mutual_exclusion_and_fencing` reads the guarantees off it.
-/

namespace Ubiq.Locking

open Foundation

/-! ## Histories -/

/-- A lock as its holder sees it. -/
structure Holding where
  owner : Bytes
  generation : UInt64
  deadline : Nat
deriving DecidableEq, Repr

/-- The holding of a key after one more call. -/
def follow (key : Bytes) (held : Option Holding) : Event → Option Holding
  | (.acquire other owner nowMs ttlMs, .granted generation) =>
      if key = other then some ⟨owner, generation, nowMs + ttlMs⟩ else held
  | (.renew other _ nowMs ttlMs, .done) =>
      if key = other then held.map fun holding => { holding with deadline := nowMs + ttlMs } else held
  | (.release other _, .done) => if key = other then none else held
  | (.reapExpired nowMs, .done) => held.filter fun holding => decide (nowMs < holding.deadline)
  | _ => held

/-- The holding of a key that is left after the calls of a history. -/
def holdingOf (key : Bytes) (history : List Event) : Option Holding :=
  history.foldl (follow key) none

/-- The key and the generation of a successful acquire. -/
def grantOf : Event → Option (Bytes × UInt64)
  | (.acquire key _ _ _, .granted generation) => some (key, generation)
  | _ => none

/-- The successful acquires. -/
def grants (history : List Event) : List (Bytes × UInt64) :=
  history.filterMap grantOf

variable {event : Event}

@[simp] theorem holdingOf_concat (key : Bytes) (history : List Event) (event : Event) :
    holdingOf key (history ++ [event]) = follow key (holdingOf key history) event := by
  simp [holdingOf]

@[simp] theorem follow_failed (key : Bytes) (held : Option Holding) (action : Action)
    (err : LockError) : follow key held (action, .failed err) = held := by
  cases action <;> rfl

@[simp] theorem grantOf_failed (action : Action) (err : LockError) :
    grantOf (action, .failed err) = none := by
  cases action <;> rfl

theorem grants_concat_of_none {history : List Event} (h : grantOf event = none) :
    grants (history ++ [event]) = grants history := by
  simp [grants, h]

theorem grants_concat_of_some {history : List Event} {grant : Bytes × UInt64}
    (h : grantOf event = some grant) : grants (history ++ [event]) = grants history ++ [grant] := by
  simp [grants, h]

/-! ## The table and its history -/

/-- The holding that a slot records. -/
def Lock.holding (lock : Lock) : Option Holding :=
  if lock.active then some ⟨lock.owner, lock.generation, lock.expiresAtMs⟩ else none

namespace LeaseLockTable

variable {capacity nowMs index : Nat} {table next : LeaseLockTable capacity} {history : List Event}
  {key owner : Bytes} {generation : UInt64}

/-- The holding that the table records for a key. -/
def holding (table : LeaseLockTable capacity) (key : Bytes) : Option Holding :=
  (table.lookup key).bind Lock.holding

theorem validateFence_eq_true_iff_holding :
    table.validateFence key owner generation nowMs = true ↔
      ∃ deadline, table.holding key = some ⟨owner, generation, deadline⟩ ∧ nowMs < deadline := by
  rw [validateFence_eq_true_iff]
  constructor
  · rintro ⟨lock, hlookup, hactive, hlive, rfl, rfl⟩
    exact ⟨lock.expiresAtMs, by simp [holding, hlookup, Lock.holding, hactive], hlive⟩
  · rintro ⟨deadline, hholding, hlive⟩
    obtain ⟨lock, hlookup, hlock⟩ := Option.bind_eq_some_iff.mp hholding
    unfold Lock.holding at hlock
    split at hlock
    · next hactive =>
        cases hlock
        exact ⟨lock, hlookup, hactive, hlive, rfl, rfl⟩
    · cases hlock

theorem holding_renewed (hfind : table.find key = some index) (nowMs ttlMs : Nat)
    (owner other : Bytes) :
    (table.modify index (.extend nowMs ttlMs)).holding other =
      follow other (table.holding other) (.renew key owner nowMs ttlMs, .done) := by
  rw [holding, lookup_modify hfind (Lock.key_extend nowMs ttlMs), follow]
  split
  · cases hlookup : table.lookup other with
    | none => simp [holding, hlookup]
    | some lock => cases hactive : lock.active <;> simp [holding, hlookup, Lock.holding, Lock.extend, hactive]
  · rfl

theorem holding_released (hfind : table.find key = some index) (owner other : Bytes) :
    (table.modify index .deactivate).holding other =
      follow other (table.holding other) (.release key owner, .done) := by
  rw [holding, lookup_modify hfind Lock.key_deactivate, follow]
  split
  · cases table.lookup other <;> rfl
  · rfl

theorem holding_reaped (nowMs : Nat) (key : Bytes) :
    (table.reapExpired nowMs).holding key =
      follow key (table.holding key) (.reapExpired nowMs, .done) := by
  rw [holding, lookup_reapExpired, follow, holding]
  cases table.lookup key with
  | none => rfl
  | some lock =>
      cases hactive : lock.active with
      | false => simp [Lock.due, hactive, Lock.holding]
      | true =>
          by_cases hlive : nowMs < lock.expiresAtMs
          · simp [Lock.due, hactive, Lock.holding, Nat.not_le.mpr hlive, Option.filter, hlive]
          · simp [Lock.due, hactive, Lock.holding, Nat.le_of_not_lt hlive, Option.filter, hlive,
              Lock.deactivate]

/-- The generation in the slot of a key. -/
def generationOf (table : LeaseLockTable capacity) (key : Bytes) : Option UInt64 :=
  (table.lookup key).map Lock.generation

theorem generationOf_modify (hfind : table.find key = some index) {change : Lock → Lock}
    (hkey : ∀ lock, (change lock).key = lock.key)
    (hgeneration : ∀ lock, (change lock).generation = lock.generation) (other : Bytes) :
    (table.modify index change).generationOf other = table.generationOf other := by
  rw [generationOf, lookup_modify hfind hkey]
  split
  · cases hlookup : table.lookup other <;> simp [generationOf, hlookup, hgeneration]
  · rfl

theorem generationOf_reapExpired (nowMs : Nat) (key : Bytes) :
    (table.reapExpired nowMs).generationOf key = table.generationOf key := by
  rw [generationOf, lookup_reapExpired, generationOf]
  cases table.lookup key with
  | none => rfl
  | some lock =>
      show some (if lock.due nowMs then lock.deactivate else lock).generation = some lock.generation
      split <;> rfl

/-! ## The invariant -/

/-- The table agrees with the calls so far. -/
structure Consistent (table : LeaseLockTable capacity) (history : List Event) : Prop where
  distinct : (table.locks.map Lock.key).Nodup
  counter : table.nextGeneration.toNat = (grants history).length + 1
  numbered : (grants history).map (fun grant => grant.2.toNat) =
    List.range' 1 (grants history).length
  holds : ∀ key, table.holding key = holdingOf key history
  covered : ∀ key generation, (key, generation) ∈ grants history →
    ∃ current, table.generationOf key = some current ∧ generation ≤ current

namespace Consistent

theorem start : Consistent (LeaseLockTable.empty capacity) [] where
  distinct := List.nodup_nil
  counter := rfl
  numbered := rfl
  holds := fun _ => rfl
  covered := by
    intro key generation hmem
    cases hmem

/-- A call that grants nothing and keeps every generation. -/
theorem of_no_grant (h : Consistent table history) (hgrant : grantOf event = none)
    (hkeys : next.locks.map Lock.key = table.locks.map Lock.key)
    (hcounter : next.nextGeneration = table.nextGeneration)
    (hgeneration : ∀ key, next.generationOf key = table.generationOf key)
    (hholding : ∀ key, next.holding key = follow key (table.holding key) event) :
    Consistent next (history ++ [event]) where
  distinct := hkeys.symm ▸ h.distinct
  counter := by rw [hcounter, h.counter, grants_concat_of_none hgrant]
  numbered := by rw [grants_concat_of_none hgrant, h.numbered]
  holds := by
    intro key
    rw [hholding, holdingOf_concat, h.holds]
  covered := by
    intro key generation hmem
    rw [grants_concat_of_none hgrant] at hmem
    rw [hgeneration]
    exact h.covered key generation hmem

/-- Every generation granted so far is below the counter. -/
theorem lt_counter (h : Consistent table history) {grant : Bytes × UInt64}
    (hmem : grant ∈ grants history) : grant.2 < table.nextGeneration := by
  have hrange : grant.2.toNat ∈ List.range' 1 (grants history).length := by
    rw [← h.numbered]
    exact List.mem_map.mpr ⟨grant, hmem, rfl⟩
  rw [List.mem_range'_1] at hrange
  rw [UInt64.lt_iff_toNat_lt, h.counter]
  omega

/-- The counter does not wrap around before the last generation is granted. -/
theorem toNat_generationAfter (h : generation.toNat < 2 ^ 64 - 1) :
    (generationAfter generation).toNat = generation.toNat + 1 := by
  have hadd : (generation + 1).toNat = generation.toNat + 1 := by
    rw [UInt64.toNat_add, UInt64.toNat_one, Nat.mod_eq_of_lt (by omega)]
  unfold generationAfter
  split
  · next hzero =>
      rw [hzero, UInt64.toNat_zero] at hadd
      omega
  · exact hadd

/-- A successful acquire. -/
theorem granted (h : Consistent table history) {ttlMs : Nat} (hlookup : ∀ other, next.lookup other =
      if other = key then some (table.grantedLock key owner nowMs ttlMs) else table.lookup other)
    (hkeys : (table.locks.map Lock.key).Nodup → (next.locks.map Lock.key).Nodup)
    (hnext : next.nextGeneration = generationAfter table.nextGeneration)
    (hbound : (grants history).length + 1 < 2 ^ 64 - 1) :
    Consistent next
      (history ++ [(.acquire key owner nowMs ttlMs, .granted table.nextGeneration)]) where
  distinct := hkeys h.distinct
  counter := by
    have hlt : table.nextGeneration.toNat < 2 ^ 64 - 1 := h.counter ▸ hbound
    rw [hnext, toNat_generationAfter hlt, h.counter, grants_concat_of_some rfl, List.length_append,
      List.length_singleton]
  numbered := by
    rw [grants_concat_of_some rfl, List.map_append, h.numbered, List.map_singleton, h.counter,
      List.length_append, List.length_singleton, List.range'_concat, Nat.one_mul, Nat.add_comm]
  holds := by
    intro other
    rw [holding, hlookup, holdingOf_concat, follow, ← h.holds]
    split <;> rfl
  covered := by
    intro other generation hmem
    rw [grants_concat_of_some rfl, List.mem_append, List.mem_singleton] at hmem
    rw [generationOf, hlookup]
    by_cases hother : other = key
    · refine ⟨table.nextGeneration, by rw [if_pos hother]; rfl, ?_⟩
      rcases hmem with hold | hnew
      · exact UInt64.le_of_lt (h.lt_counter hold)
      · obtain rfl : generation = table.nextGeneration := congrArg Prod.snd hnew
        exact UInt64.le_refl _
    · rw [if_neg hother]
      rcases hmem with hold | hnew
      · exact h.covered other generation hold
      · exact absurd (congrArg Prod.fst hnew) hother

/-- **Step lemma.** Every call keeps the table consistent while the counter lasts. -/
theorem step {action : Action} {reply : Reply} (h : Consistent table history)
    (heffect : Effect table action next reply)
    (hbound : (grants (history ++ [(action, reply)])).length < 2 ^ 64 - 1) :
    Consistent next (history ++ [(action, reply)]) := by
  cases heffect with
  | failed err =>
      exact h.of_no_grant (grantOf_failed action _) rfl rfl (fun _ => rfl)
        fun key => (follow_failed key _ action _).symm
  | granted key owner nowMs ttlMs _ hfree hlookup hkeys hnext =>
      rw [grants_concat_of_some rfl, List.length_append, List.length_singleton] at hbound
      exact h.granted hlookup hkeys hnext hbound
  | renewed key owner nowMs ttlMs index hfind =>
      exact h.of_no_grant rfl (map_key_modify (Lock.key_extend nowMs ttlMs)) rfl
        (generationOf_modify hfind (Lock.key_extend nowMs ttlMs) fun _ => rfl)
        (holding_renewed hfind nowMs ttlMs owner)
  | released key owner index hfind =>
      exact h.of_no_grant rfl (map_key_modify Lock.key_deactivate) rfl
        (generationOf_modify hfind Lock.key_deactivate fun _ => rfl) (holding_released hfind owner)
  | reaped nowMs =>
      exact h.of_no_grant rfl (Table.map_key_update Lock.key_deactivate) rfl (generationOf_reapExpired nowMs)
        (holding_reaped nowMs)
  | validated key owner generation nowMs valid =>
      exact h.of_no_grant rfl rfl rfl (fun _ => rfl) fun _ => rfl

end Consistent

theorem length_grants_le_concat (history : List Event) (event : Event) :
    (grants history).length ≤ (grants (history ++ [event])).length := by
  simp [grants, List.filterMap_append]

/-- The table after a run. -/
def reached (capacity : Nat) (actions : List Action) : LeaseLockTable capacity :=
  Execution.run (Execution.after perform) (empty capacity) actions

/-- The calls of a run with their replies. -/
def historyOf (capacity : Nat) (actions : List Action) : List Event :=
  Execution.trace perform (empty capacity) actions

/-- **Run lemma.** A run from the empty table with fewer than `2 ^ 64 - 1` grants leaves a
table that is consistent with its calls. -/
theorem consistent_reached (actions : List Action)
    (hbound : (grants (historyOf capacity actions)).length < 2 ^ 64 - 1) :
    Consistent (reached capacity actions) (historyOf capacity actions) := by
  have hstep : ∀ (table : LeaseLockTable capacity) past action,
      ((grants past).length < 2 ^ 64 - 1 → Consistent table past) →
        (grants (past ++ [(action, (table.perform action).2)])).length < 2 ^ 64 - 1 →
          Consistent (Execution.after perform table action)
            (past ++ [(action, (table.perform action).2)]) := by
    intro table past action ih hlater
    have hpast := lt_of_le_of_lt (length_grants_le_concat past _) hlater
    exact (ih hpast).step (effect_perform table action) hlater
  exact Execution.invariant_trace hstep (fun _ => Consistent.start) actions hbound

/-! ## The guarantees -/

/-- What holders of lease locks rely on. -/
structure Guarantees (table : LeaseLockTable capacity) (history : List Event) : Prop where
  /-- a key has one slot -/
  distinct : (table.locks.map Lock.key).Nodup
  /-- later grants have larger generations -/
  increasing : ((grants history).map Prod.snd).Pairwise (· < ·)
  /-- one pair of owner and generation validates -/
  exclusive : ∀ key nowMs owner generation owner' generation',
    table.validateFence key owner generation nowMs = true →
      table.validateFence key owner' generation' nowMs = true →
        owner = owner' ∧ generation = generation'
  /-- a lock that is neither released nor reaped is granted again only after its deadline -/
  lapsed : ∀ key owner nowMs ttlMs generation,
    (table.acquire key owner nowMs ttlMs).2 = .ok generation →
      ∀ held, holdingOf key history = some held → held.deadline ≤ nowMs
  /-- a grant fences off every smaller generation -/
  fenced : ∀ key generation, (key, generation) ∈ grants history →
    ∀ owner stale nowMs, stale < generation → table.validateFence key owner stale nowMs = false

namespace Consistent

theorem increasing (h : Consistent table history) :
    ((grants history).map Prod.snd).Pairwise (· < ·) := by
  have hrange : ((grants history).map fun grant => grant.2.toNat).Pairwise (· < ·) := by
    rw [h.numbered]
    exact List.pairwise_lt_range'
  rw [List.pairwise_map] at hrange ⊢
  exact hrange.imp fun hlt => UInt64.lt_iff_toNat_lt.mpr hlt

theorem lapsed (h : Consistent table history) {ttlMs : Nat}
    (hgranted : (table.acquire key owner nowMs ttlMs).2 = .ok generation) {held : Holding}
    (hheld : holdingOf key history = some held) : held.deadline ≤ nowMs := by
  have hfree := expires_le_of_acquire hgranted
  rw [← h.holds] at hheld
  obtain ⟨lock, hlookup, hlock⟩ := Option.bind_eq_some_iff.mp hheld
  unfold Lock.holding at hlock
  split at hlock
  · next hactive =>
      cases hlock
      exact hfree lock hlookup hactive
  · cases hlock

theorem refuses_stale (h : Consistent table history) (hgrant : (key, generation) ∈ grants history)
    (owner : Bytes) {stale : UInt64} (nowMs : Nat) (hstale : stale < generation) :
    table.validateFence key owner stale nowMs = false := by
  by_contra hvalid
  rw [Bool.not_eq_false, validateFence_eq_true_iff] at hvalid
  obtain ⟨lock, hlookup, -, -, rfl, -⟩ := hvalid
  obtain ⟨current, hcurrent, hle⟩ := h.covered key generation hgrant
  rw [generationOf, hlookup, Option.map_some, Option.some.injEq] at hcurrent
  rw [hcurrent] at hstale
  exact absurd (UInt64.lt_of_lt_of_le hstale hle) (UInt64.lt_irrefl _)

end Consistent

theorem exclusive {owner' : Bytes} {generation' : UInt64}
    (hfirst : table.validateFence key owner generation nowMs = true)
    (hsecond : table.validateFence key owner' generation' nowMs = true) :
    owner = owner' ∧ generation = generation' := by
  obtain ⟨deadline, hholding, -⟩ := validateFence_eq_true_iff_holding.mp hfirst
  obtain ⟨deadline', hholding', -⟩ := validateFence_eq_true_iff_holding.mp hsecond
  rw [hholding] at hholding'
  cases hholding'
  exact ⟨rfl, rfl⟩

/-- **Mutual exclusion and fencing.** After every run from the empty table with fewer than
`2 ^ 64 - 1` successful acquires, whatever the clock readings, the table guarantees what holders
of its locks rely on. -/
theorem mutual_exclusion_and_fencing (capacity : Nat) (actions : List Action)
    (hbound : (grants (historyOf capacity actions)).length < 2 ^ 64 - 1) :
    Guarantees (reached capacity actions) (historyOf capacity actions) := by
  have hconsistent := consistent_reached actions hbound
  exact {
    distinct := hconsistent.distinct
    increasing := hconsistent.increasing
    exclusive := fun key nowMs owner generation owner' generation' => exclusive
    lapsed := fun key owner nowMs ttlMs generation hgranted held hheld =>
      hconsistent.lapsed hgranted hheld
    fenced := fun key generation hgrant owner stale nowMs hstale =>
      hconsistent.refuses_stale hgrant owner nowMs hstale }

/-- The lock of `invoice:1` expires, is reaped and goes to the next worker. -/
def expiredThenReacquired : List Action :=
  [.acquire (ascii "invoice:1") (ascii "worker-a") 0 10, .reapExpired 10,
    .acquire (ascii "invoice:1") (ascii "worker-b") 10 10]

theorem guarantees_expiredThenReacquired :
    grants (historyOf 4 expiredThenReacquired) = [(ascii "invoice:1", 1), (ascii "invoice:1", 2)] ∧
      Guarantees (reached 4 expiredThenReacquired) (historyOf 4 expiredThenReacquired) := by
  have hgrants : grants (historyOf 4 expiredThenReacquired) =
      [(ascii "invoice:1", 1), (ascii "invoice:1", 2)] := by decide +kernel
  exact ⟨hgrants, mutual_exclusion_and_fencing 4 _ (by rw [hgrants]; decide)⟩

end LeaseLockTable

end Ubiq.Locking
