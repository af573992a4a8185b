import Ubiq.Foundation.Bytes
import Ubiq.Foundation.Table

/-!
# Shard migrations

The table `shard_migrations` of `shard.go`: creating a migration, the conditional
state change that every operation ends with, and the routing of client writes.
-/

namespace Ubiq.Shard

open Foundation

inductive MigrationState
  | planned
  | dualWrite
  | backfill
  | verify
  | cutover
  | complete
  | rolledBack
deriving DecidableEq, Repr

/-- The states in which the destination has taken over. -/
def MigrationState.IsCut (state : MigrationState) : Prop :=
  state = .cutover ∨ state = .complete

instance (state : MigrationState) : Decidable state.IsCut :=
  inferInstanceAs (Decidable (_ ∨ _))

/-- `ShardMigration`, a row of `shard_migrations`. -/
structure Migration where
  id : Bytes
  source : Bytes
  destination : Bytes
  rangeStart : Bytes
  rangeEnd : Bytes
  state : MigrationState := .planned
  checkpoint : Bytes := []
  updatedAtMs : Int := 0
deriving DecidableEq, Repr

/-- The errors of `shard.go`; `storage` is an error of the database or a backend. -/
inductive Error
  | backendIdRequired
  | duplicateBackend (id : Bytes)
  | unknownBackend (id : Bytes)
  | invalidMigration
  | invalidTransition
  | notInBackfill
  | notReadyToVerify
  | verificationFailed (source destination : Nat)
  | notCutOver
  | rollbackAfterCutover
  | storage
deriving DecidableEq, Repr

/-- The messages; `quote` and `decimal` are the verbs `%q` and `%d` of `fmt`. -/
def Error.message (quote : Bytes → Bytes) (decimal : Nat → Bytes) : Error → Option Bytes
  | .backendIdRequired => some (ascii "backend id required")
  | .duplicateBackend id => some (ascii "duplicate shard backend " ++ quote id)
  | .unknownBackend id => some (ascii "unknown shard backend " ++ quote id)
  | .invalidMigration => some (ascii "invalid migration")
  | .invalidTransition => some (ascii "invalid migration transition")
  | .notInBackfill => some (ascii "migration is not in backfill")
  | .notReadyToVerify => some (ascii "migration is not ready to verify")
  | .verificationFailed source destination =>
      some (ascii "verification failed: source=" ++ decimal source ++ ascii " destination=" ++
        decimal destination)
  | .notCutOver => some (ascii "migration is not cut over")
  | .rollbackAfterCutover => some (ascii "cannot rollback after cutover")
  | .storage => none

/-- The states from which an operation may change the state, and the state it sets. -/
inductive Transition
  | enableDualWrite
  | beginBackfill
  | finishBackfill
  | cutOver
  | complete
  | rollback
deriving DecidableEq, Repr

/-- The `from` argument of `setState`. -/
def Transition.sources : Transition → List MigrationState
  | .enableDualWrite => [.planned]
  | .beginBackfill => [.dualWrite]
  | .finishBackfill => [.backfill]
  | .cutOver => [.verify]
  | .complete => [.cutover]
  | .rollback => [.planned, .dualWrite, .backfill, .verify]

/-- The `to` argument of `setState`. -/
def Transition.target : Transition → MigrationState
  | .enableDualWrite => .dualWrite
  | .beginBackfill => .backfill
  | .finishBackfill => .verify
  | .cutOver => .cutover
  | .complete => .complete
  | .rollback => .rolledBack

/-- The columns that `setState` sets. -/
def Migration.moved (target : MigrationState) (checkpoint : Bytes) (now : Int)
    (migration : Migration) : Migration :=
  { migration with state := target, checkpoint := checkpoint, updatedAtMs := now }

/-- `setState` on the row of its migration. -/
def Migration.setState (migration : Migration) (transition : Transition) (checkpoint : Bytes)
    (now : Int) : Migration × Except Error Unit :=
  if migration.state ∈ transition.sources then
    (migration.moved transition.target checkpoint now, .ok ())
  else (migration, .error .invalidTransition)

/-- The update of `BackfillStep` when its batch was full. -/
def Migration.saveCheckpoint (migration : Migration) (checkpoint : Bytes) (now : Int) :
    Migration :=
  if migration.state = .backfill then migration.moved .backfill checkpoint now else migration

theorem Migration.state_saveCheckpoint (migration : Migration) (checkpoint : Bytes) (now : Int) :
    (migration.saveCheckpoint checkpoint now).state = migration.state := by
  unfold Migration.saveCheckpoint
  split
  · next hbackfill => exact hbackfill.symm
  · rfl

/-- `ShardCoordinator`: the migration table and the ids of the registered backends. -/
structure Coordinator where
  migrations : List Migration := []
  backends : List Bytes := []
deriving DecidableEq, Repr

namespace Coordinator

def register (coordinator : Coordinator) (id : Bytes) : Coordinator × Except Error Unit :=
  if id = [] then (coordinator, .error .backendIdRequired)
  else if id ∈ coordinator.backends then (coordinator, .error (.duplicateBackend id))
  else ({ coordinator with backends := id :: coordinator.backends }, .ok ())

def backend (coordinator : Coordinator) (id : Bytes) : Except Error Bytes :=
  if id ∈ coordinator.backends then .ok id else .error (.unknownBackend id)

/-- `Create`. A second row with the same id violates the primary key. -/
def create (coordinator : Coordinator) (migration : Migration) (now : Int) :
    Coordinator × Except Error Unit :=
  if migration.id = [] ∨ migration.source = [] ∨ migration.destination = [] ∨
      migration.source = migration.destination then
    (coordinator, .error .invalidMigration)
  else
    match coordinator.backend migration.source with
    | .error err => (coordinator, .error err)
    | .ok _ =>
        match coordinator.backend migration.destination with
        | .error err => (coordinator, .error err)
        | .ok _ =>
            if coordinator.migrations.any fun other => other.id = migration.id then
              (coordinator, .error .storage)
            else
              ({ coordinator with
                  migrations := coordinator.migrations ++ [migration.moved .planned [] now] },
                .ok ())

def get (coordinator : Coordinator) (id : Bytes) : Option Migration :=
  Table.lookup Migration.id id coordinator.migrations

/-- The `WHERE` clause of `setState`. -/
def movable (id : Bytes) (transition : Transition) (migration : Migration) : Bool :=
  migration.id = id ∧ migration.state ∈ transition.sources

def setState (coordinator : Coordinator) (id : Bytes) (transition : Transition)
    (checkpoint : Bytes) (now : Int) : Coordinator × Except Error Unit :=
  ({ coordinator with
      migrations := Table.update (movable id transition)
        (Migration.moved transition.target checkpoint now) coordinator.migrations },
    if Table.affected (movable id transition) coordinator.migrations ≠ 1 then
      .error .invalidTransition
    else .ok ())

/-- The checkpoint update of `BackfillStep`. -/
def saveCheckpoint (coordinator : Coordinator) (id checkpoint : Bytes) (now : Int) : Coordinator :=
  { coordinator with
      migrations := Table.update (fun migration => migration.id = id ∧ migration.state = .backfill)
        (Migration.moved .backfill checkpoint now) coordinator.migrations }

/-- `key < start || key >= end` is false. -/
def covers (migration : Migration) (key : Bytes) : Bool :=
  migration.rangeStart ≤ key ∧ key < migration.rangeEnd

/-- What a migration that covers a key adds to the targets of a write. -/
def writeTargets (migration : Migration) : List Bytes :=
  match migration.state with
  | .planned => [migration.source]
  | .dualWrite | .backfill | .verify => [migration.source, migration.destination]
  | .cutover | .complete => [migration.destination]
  | .rolledBack => []

/-- `TargetsForWrite`: the union over the migrations that are not rolled back,
without repetitions and sorted. -/
def targetsForWrite (coordinator : Coordinator) (key : Bytes) : List Bytes :=
  ((coordinator.migrations.filter fun migration =>
      migration.state ≠ .rolledBack ∧ covers migration key).flatMap
    writeTargets).dedup.insertionSort (· ≤ ·)

variable {coordinator : Coordinator} {id : Bytes}

theorem mem_targetsForWrite {key : Bytes} :
    id ∈ coordinator.targetsForWrite key ↔
      ∃ migration ∈ coordinator.migrations, covers migration key = true ∧
        id ∈ writeTargets migration := by
  unfold targetsForWrite
  rw [List.mem_insertionSort, List.mem_dedup, List.mem_flatMap]
  constructor
  · rintro ⟨migration, hmem, hid⟩
    simp only [List.mem_filter, decide_eq_true_eq] at hmem
    exact ⟨migration, hmem.1, hmem.2.2, hid⟩
  · rintro ⟨migration, hmem, hcovers, hid⟩
    refine ⟨migration, ?_, hid⟩
    have hstate : migration.state ≠ .rolledBack := by
      intro hrolled
      simp [writeTargets, hrolled] at hid
    simpa using ⟨hmem, hstate, hcovers⟩

end Coordinator
end Ubiq.Shard
