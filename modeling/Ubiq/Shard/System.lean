import Ubiq.Shard.Backend
import Ubiq.Shard.Migration
import Ubiq.Foundation.Interleaving

/-!
# Operators and clients of one migration

The calls of `shard.go` on one migration, cut at their database and backend
operations. A `Task` is a call at one of these points, with what it has read so
far. `effect` performs the next operation; `perform` also lets it fail, before or
after it has taken effect.

`effect_spec` lists once what a step can do. The safety arguments about migrations
are case distinctions on that list.

The columns `source`, `destination`, `range_start` and `range_end` of a migration
are never updated, so a task reads them where it needs them. `Create` has checked
that both backends are registered, and nothing unregisters them.
-/

namespace Ubiq.Shard

open Foundation

variable {δ : Type}

/-- The two backends of a migration. -/
structure Setup (δ : Type) where
  source : Backend δ
  destination : Backend δ

/-- The row of the migration and the rows of the two backends. -/
structure World (δ : Type) where
  migration : Migration
  source : Rows δ
  destination : Rows δ

/-- The call at its next operation. -/
inductive Task (δ : Type)
  | enableDualWrite
  | beginBackfill
  | backfillStep (limit : Int)
  | exporting (limit : Nat) (checkpoint : Bytes)
  | importing (documents : List ShardDocument) (next : Bytes) (done : Bool)
  | saving (next : Bytes) (done : Bool)
  | verify
  | countingSource (checkpoint : Bytes)
  | countingDestination (checkpoint : Bytes) (a : Nat)
  | cuttingOver (checkpoint : Bytes)
  | complete (deleteSource : Bool)
  | deletingSource (checkpoint : Bytes)
  | completing (checkpoint : Bytes)
  | rollback
  | deletingDestination (checkpoint : Bytes)
  | rollingBack (checkpoint : Bytes)
  -- a client puts or deletes a document, in the source and then in the destination
  | write (key : Bytes) (value : Option δ)
  | forward (key : Bytes) (value : Option δ)
deriving DecidableEq, Repr

/-- The result of a call that returned no error; `BackfillStep` also says whether it
has finished. -/
inductive Reply
  | ok
  | backfilled (finished : Bool)
deriving DecidableEq, Repr

/-- A call goes on or returns. -/
inductive Progress (δ : Type)
  | running (task : Task δ)
  | returned (result : Except Error Reply)

namespace Progress

/-- The rest of the call. -/
def task? : Progress δ → Option (Task δ)
  | .running task => some task
  | .returned _ => none

end Progress

namespace World

/-- The keys of the range. -/
def covers (world : World δ) (key : Bytes) : Bool :=
  inRange world.migration.rangeStart world.migration.rangeEnd key

/-- The migration is cut over: the destination is authoritative. -/
abbrev IsCut (world : World δ) : Prop :=
  world.migration.state.IsCut

/-- A call that ends with `setState`. -/
def setState (world : World δ) (transition : Transition) (checkpoint : Bytes) (now : Int)
    (reply : Reply) : World δ × Progress δ :=
  let (migration, result) := world.migration.setState transition checkpoint now
  ({ world with migration := migration }, .returned (result.map fun _ => reply))

end World

/-- A client's put or delete at one store. -/
def applyWrite (rows : Rows δ) (key : Bytes) : Option δ → Rows δ
  | some value => rows.put key value
  | none => rows.restrict fun other => other ≠ key

/-- `BackfillStep` after its import: the loop over the batch goes on or is done. -/
def importRest (documents : List ShardDocument) (next : Bytes) (done : Bool) : Task δ :=
  if documents = [] then .saving next done else .importing documents next done

/-- What one operation of `Import` takes from the batch: SQL the whole transaction,
Mongo one document. -/
def portion : Engine → List ShardDocument → List ShardDocument × List ShardDocument
  | .sql, documents => (documents, [])
  | .mongo, documents => (documents.take 1, documents.drop 1)

/-- The next operation of a call. -/
def effect (setup : Setup δ) (world : World δ) (task : Task δ) (now : Int) :
    World δ × Progress δ :=
  let start := world.migration.rangeStart
  let stop := world.migration.rangeEnd
  match task with
  | .enableDualWrite => world.setState .enableDualWrite [] now .ok
  | .beginBackfill => world.setState .beginBackfill [] now .ok
  | .backfillStep limit =>
      if world.migration.state ≠ .backfill then (world, .returned (.error .notInBackfill))
      else
        (world, .running (.exporting (if limit ≤ 0 then 500 else limit.toNat)
          world.migration.checkpoint))
  | .exporting limit checkpoint =>
      match setup.source.exportRange world.source start stop checkpoint limit with
      | none => (world, .returned (.error .storage))
      | some batch => (world, .running (importRest batch.documents batch.next batch.done))
  | .importing documents next done =>
      match setup.destination.importAll world.destination
          (portion setup.destination.engine documents).1 with
      | none => (world, .returned (.error .storage))
      | some rows =>
          ({ world with destination := rows },
            .running (importRest (portion setup.destination.engine documents).2 next done))
  | .saving next true => world.setState .finishBackfill next now (.backfilled true)
  | .saving next false =>
      -- the number of affected rows is not looked at
      ({ world with migration := world.migration.saveCheckpoint next now },
        .returned (.ok (.backfilled false)))
  | .verify =>
      if world.migration.state ≠ .verify then (world, .returned (.error .notReadyToVerify))
      else (world, .running (.countingSource world.migration.checkpoint))
  | .countingSource checkpoint =>
      (world, .running (.countingDestination checkpoint (countRange world.source start stop)))
  | .countingDestination checkpoint a =>
      if a ≠ countRange world.destination start stop then
        (world, .returned (.error
          (.verificationFailed a (countRange world.destination start stop))))
      else (world, .running (.cuttingOver checkpoint))
  | .cuttingOver checkpoint => world.setState .cutOver checkpoint now .ok
  | .complete deleteSource =>
      if world.migration.state ≠ .cutover then (world, .returned (.error .notCutOver))
      else if deleteSource then (world, .running (.deletingSource world.migration.checkpoint))
      else (world, .running (.completing world.migration.checkpoint))
  | .deletingSource checkpoint =>
      ({ world with source := deleteRange world.source start stop },
        .running (.completing checkpoint))
  | .completing checkpoint => world.setState .complete checkpoint now .ok
  | .rollback =>
      if world.IsCut then (world, .returned (.error .rollbackAfterCutover))
      else (world, .running (.deletingDestination world.migration.checkpoint))
  | .deletingDestination checkpoint =>
      ({ world with destination := deleteRange world.destination start stop },
        .running (.rollingBack checkpoint))
  | .rollingBack checkpoint => world.setState .rollback checkpoint now .ok
  | .write key value =>
      ({ world with source := applyWrite world.source key value }, .running (.forward key value))
  | .forward key value =>
      ({ world with destination := applyWrite world.destination key value }, .returned (.ok .ok))

/-- An operation succeeds, fails without effect, or fails although it took effect. -/
inductive Outcome
  | done
  | lost
  | unreported
deriving DecidableEq, Repr

/-- What the environment decides about an operation: the clock and its outcome. -/
structure Choice where
  now : Int
  outcome : Outcome := .done
deriving DecidableEq, Repr

/-- The next operation of a call, with its failures. -/
def advance (setup : Setup δ) (world : World δ) (task : Task δ) (choice : Choice) :
    World δ × Progress δ :=
  match choice.outcome with
  | .done => effect setup world task choice.now
  | .lost => (world, .returned (.error .storage))
  | .unreported => ((effect setup world task choice.now).1, .returned (.error .storage))

/-- `advance` as a step of a pool of calls. -/
def perform (setup : Setup δ) (world : World δ) (task : Task δ) (choice : Choice) :
    World δ × Option (Task δ) :=
  ((advance setup world task choice).1, (advance setup world task choice).2.task?)

/-- The calls in flight on one migration. -/
abbrev Pool (δ : Type) := Interleaving.Pool (World δ) (Task δ)

/-- Start a call, or let one perform its next operation. -/
abbrev Action (δ : Type) := Interleaving.Action (Task δ) Choice

/-- One step of the system. -/
abbrev step (setup : Setup δ) : Pool δ → Action δ → Pool δ :=
  Interleaving.step (perform setup)

/-- Every key of the range has the same document, or none, in both stores. -/
def SameRange (world : World δ) : Prop :=
  ∀ key, world.covers key = true → world.destination.lookup key = world.source.lookup key

/-- A call whose operations all succeed, while no other call is in flight. -/
def callAlone (task : Task δ) (operations : Nat) : List (Action δ) :=
  .spawn task :: List.replicate operations (.advance 0 ⟨0, .done⟩)

/-! ## What a step can do -/

/-- The state change at the end of a call, with its checkpoint. -/
def Task.transition? : Task δ → Option (Transition × Bytes)
  | .enableDualWrite => some (.enableDualWrite, [])
  | .beginBackfill => some (.beginBackfill, [])
  | .saving next true => some (.finishBackfill, next)
  | .cuttingOver checkpoint => some (.cutOver, checkpoint)
  | .completing checkpoint => some (.complete, checkpoint)
  | .rollingBack checkpoint => some (.rollback, checkpoint)
  | _ => none

/-- The writes of clients, which end without a state change. -/
def Task.isClient : Task δ → Bool
  | .write _ _ | .forward _ _ => true
  | _ => false

variable {task : Task δ} {world : World δ} {now : Int} {setup : Setup δ}

theorem Task.isClient_of_transition? {change : Transition × Bytes}
    (h : task.transition? = some change) : task.isClient = false := by
  cases task <;> trivial

/-- The ways in which an operation changes the world and goes on. -/
inductive Effect (setup : Setup δ) (world : World δ) (now : Int) :
    Task δ → World δ → Progress δ → Prop
  | refused {task : Task δ} (err : Error) (htask : task.isClient = false) :
      Effect setup world now task world (.returned (.error err))
  | moved {task : Task δ} {transition : Transition} {checkpoint : Bytes} {reply : Reply}
      (htask : task.transition? = some (transition, checkpoint))
      (hstate : world.migration.state ∈ transition.sources) :
      Effect setup world now task
        { world with migration := world.migration.moved transition.target checkpoint now }
        (.returned (.ok reply))
  | saved (next : Bytes) : Effect setup world now (.saving next false)
      { world with migration := world.migration.saveCheckpoint next now }
      (.returned (.ok (.backfilled false)))
  | backfilling (limit : Int) (hstate : world.migration.state = .backfill) :
      Effect setup world now (.backfillStep limit) world
        (.running (.exporting (if limit ≤ 0 then 500 else limit.toNat)
          world.migration.checkpoint))
  | exported {limit : Nat} {checkpoint : Bytes} {batch : ShardBatch}
      (hbatch : Exported setup.source world.source world.migration.rangeStart
        world.migration.rangeEnd checkpoint batch) :
      Effect setup world now (.exporting limit checkpoint) world
        (.running (importRest batch.documents batch.next batch.done))
  | imported {documents : List ShardDocument} {next : Bytes} {done : Bool} {rows : Rows δ}
      (hrows : setup.destination.importAll world.destination
        (portion setup.destination.engine documents).1 = some rows) :
      Effect setup world now (.importing documents next done) { world with destination := rows }
        (.running (importRest (portion setup.destination.engine documents).2 next done))
  | verifying (hstate : world.migration.state = .verify) :
      Effect setup world now .verify world
        (.running (.countingSource world.migration.checkpoint))
  | countedSource (checkpoint : Bytes) :
      Effect setup world now (.countingSource checkpoint) world
        (.running (.countingDestination checkpoint
          (countRange world.source world.migration.rangeStart world.migration.rangeEnd)))
  | countedDestination (checkpoint : Bytes) :
      Effect setup world now (.countingDestination checkpoint
          (countRange world.destination world.migration.rangeStart world.migration.rangeEnd))
        world (.running (.cuttingOver checkpoint))
  | deletes (hstate : world.migration.state = .cutover) :
      Effect setup world now (.complete true) world
        (.running (.deletingSource world.migration.checkpoint))
  | keeps (hstate : world.migration.state = .cutover) :
      Effect setup world now (.complete false) world
        (.running (.completing world.migration.checkpoint))
  | deletedSource (checkpoint : Bytes) :
      Effect setup world now (.deletingSource checkpoint)
        { world with
          source := deleteRange world.source world.migration.rangeStart
            world.migration.rangeEnd }
        (.running (.completing checkpoint))
  | rollsBack (hcut : ¬world.IsCut) :
      Effect setup world now .rollback world
        (.running (.deletingDestination world.migration.checkpoint))
  | deletedDestination (checkpoint : Bytes) :
      Effect setup world now (.deletingDestination checkpoint)
        { world with
          destination := deleteRange world.destination world.migration.rangeStart
            world.migration.rangeEnd }
        (.running (.rollingBack checkpoint))
  | written (key : Bytes) (value : Option δ) :
      Effect setup world now (.write key value)
        { world with source := applyWrite world.source key value }
        (.running (.forward key value))
  | forwarded (key : Bytes) (value : Option δ) :
      Effect setup world now (.forward key value)
        { world with destination := applyWrite world.destination key value }
        (.returned (.ok .ok))

theorem effect_setState {transition : Transition} {checkpoint : Bytes}
    (htask : task.transition? = some (transition, checkpoint)) (reply : Reply) :
    Effect setup world now task (world.setState transition checkpoint now reply).1
      (world.setState transition checkpoint now reply).2 := by
  unfold World.setState Migration.setState
  by_cases hstate : world.migration.state ∈ transition.sources
  · simp only [hstate, if_true]
    exact .moved htask hstate
  · simp only [hstate, if_false]
    exact .refused _ (Task.isClient_of_transition? htask)

theorem effect_spec (setup : Setup δ) (world : World δ) (task : Task δ) (now : Int) :
    Effect setup world now task (effect setup world task now).1
      (effect setup world task now).2 := by
  cases task with
  | enableDualWrite => exact effect_setState rfl _
  | beginBackfill => exact effect_setState rfl _
  | backfillStep limit =>
      by_cases hstate : world.migration.state = .backfill
      · simpa only [effect, hstate, ne_eq, not_true_eq_false, if_false] using
          Effect.backfilling limit hstate
      · simpa only [effect, hstate, ne_eq, not_false_eq_true, if_true] using
          Effect.refused _ rfl
  | exporting limit checkpoint =>
      simp only [effect]
      split
      · exact .refused _ rfl
      · next batch hbatch => exact .exported (exported_of_exportRange hbatch)
  | importing documents next done =>
      simp only [effect]
      split
      · exact .refused _ rfl
      · next rows hrows => exact .imported hrows
  | saving next done =>
      cases done with
      | true => exact effect_setState rfl _
      | false => exact .saved next
  | verify =>
      by_cases hstate : world.migration.state = .verify
      · simpa only [effect, hstate, ne_eq, not_true_eq_false, if_false] using
          Effect.verifying hstate
      · simpa only [effect, hstate, ne_eq, not_false_eq_true, if_true] using
          Effect.refused _ rfl
  | countingSource checkpoint => exact .countedSource checkpoint
  | countingDestination checkpoint a =>
      simp only [effect]
      split
      · exact .refused _ rfl
      · next hcount =>
          obtain rfl := not_not.mp hcount
          exact .countedDestination checkpoint
  | cuttingOver checkpoint => exact effect_setState rfl _
  | complete deleteSource =>
      by_cases hstate : world.migration.state = .cutover
      · cases deleteSource with
        | true => simpa [effect, hstate] using Effect.deletes hstate
        | false => simpa [effect, hstate] using Effect.keeps hstate
      · simpa only [effect, hstate, ne_eq, not_false_eq_true, if_true] using
          Effect.refused _ rfl
  | deletingSource checkpoint => exact .deletedSource checkpoint
  | completing checkpoint => exact effect_setState rfl _
  | rollback =>
      by_cases hcut : world.IsCut
      · simpa only [effect, hcut, if_true] using Effect.refused _ rfl
      · simpa only [effect, hcut, if_false] using Effect.rollsBack hcut
  | deletingDestination checkpoint => exact .deletedDestination checkpoint
  | rollingBack checkpoint => exact effect_setState rfl _
  | write key value => exact .written key value
  | forward key value => exact .forwarded key value

/-- A step with its failures: nothing happens, or the operation takes effect; a call
that goes on has seen it succeed. -/
theorem perform_cases (setup : Setup δ) (world : World δ) (task : Task δ) (choice : Choice) :
    (perform setup world task choice = (world, none) ∧ choice.outcome = .lost) ∨
      ∃ progress, Effect setup world choice.now task (perform setup world task choice).1 progress ∧
        ((perform setup world task choice).2 = none ∧ choice.outcome = .unreported ∨
          (perform setup world task choice).2 = progress.task? ∧ choice.outcome = .done) := by
  have hspec := effect_spec setup world task choice.now
  unfold perform advance
  cases houtcome : choice.outcome with
  | done => exact Or.inr ⟨_, hspec, Or.inr ⟨rfl, rfl⟩⟩
  | lost => exact Or.inl ⟨rfl, rfl⟩
  | unreported => exact Or.inr ⟨_, hspec, Or.inl ⟨rfl, rfl⟩⟩

/-- A step of a call is an effect; only a call that is no client's write can fail. -/
theorem perform_effect (setup : Setup δ) (world : World δ) {choice : Choice}
    (hclient : task.isClient = true → choice.outcome = .done) :
    ∃ progress, Effect setup world choice.now task (perform setup world task choice).1 progress ∧
      ((perform setup world task choice).2 = progress.task? ∨
        (perform setup world task choice).2 = none ∧ task.isClient = false) := by
  have hother : choice.outcome ≠ .done → task.isClient = false := fun hne =>
    Bool.eq_false_iff.mpr fun htask => hne (hclient htask)
  rcases perform_cases setup world task choice with ⟨hperform, hlost⟩ | ⟨progress, hspec, hrest⟩
  · rw [hperform]
    exact ⟨_, .refused .storage (hother (by simp [hlost])), Or.inl rfl⟩
  · refine ⟨progress, hspec, ?_⟩
    rcases hrest with ⟨hrest, hunreported⟩ | ⟨hrest, -⟩
    · exact Or.inr ⟨hrest, hother (by simp [hunreported])⟩
    · exact Or.inl hrest

/-- **Step rule.** What every effect establishes, with a rest or without one, every
step establishes. -/
theorem perform_induction {choice : Choice}
    {motive : World δ → Option (Task δ) → Prop} (hlost : motive world none)
    (heffect : ∀ next progress, Effect setup world choice.now task next progress →
      motive next none ∧ motive next progress.task?) :
    motive (perform setup world task choice).1 (perform setup world task choice).2 := by
  rcases perform_cases setup world task choice with ⟨hperform, -⟩ | ⟨progress, hspec, hrest⟩
  · rw [hperform]
    exact hlost
  · obtain ⟨hnone, hsome⟩ := heffect _ _ hspec
    rcases hrest with ⟨hrest, -⟩ | ⟨hrest, -⟩
    · rw [hrest]
      exact hnone
    · rw [hrest]
      exact hsome

/-- No operation changes the range. -/
theorem Effect.covers {next : World δ} {progress : Progress δ}
    (h : Effect setup world now task next progress) :
    next.covers = world.covers := by
  cases h with
  | saved text =>
      unfold World.covers Migration.saveCheckpoint
      split <;> rfl
  | _ => rfl

theorem Transition.not_mem_sources_complete (transition : Transition) :
    MigrationState.complete ∉ transition.sources := by
  cases transition <;> decide

theorem Transition.target_of_cutover {transition : Transition}
    (h : MigrationState.cutover ∈ transition.sources) : transition.target = .complete := by
  cases transition <;> first | rfl | exact absurd h (by decide)

/-- **The cut is permanent.** -/
theorem Effect.isCut {next : World δ} {progress : Progress δ}
    (h : Effect setup world now task next progress) (hcut : world.IsCut) :
    next.IsCut := by
  cases h with
  | @moved _ transition _ _ htask hstate =>
      -- `cutover` leads to `complete` only, and `complete` nowhere
      rcases hcut with hcutover | hcomplete
      · rw [hcutover] at hstate
        exact Or.inr (Transition.target_of_cutover hstate)
      · rw [hcomplete] at hstate
        exact absurd hstate (Transition.not_mem_sources_complete transition)
  | saved text =>
      rw [World.IsCut, Migration.state_saveCheckpoint]
      exact hcut
  | _ => exact hcut

/-- **Interference freedom**, with premises about effects instead of steps. -/
theorem annotated_run_effect {inv : World δ → Prop}
    {assertion : World δ → Task δ → Prop} {guard : Pool δ → Action δ → Prop}
    (hspawn : ∀ pool task, guard pool (.spawn task) → assertion pool.store task)
    (heffect : ∀ (pool : Pool δ) index task choice next progress,
      pool.tasks[index]? = some task → guard pool (.advance index choice) →
      inv pool.store → assertion pool.store task →
      Effect setup pool.store choice.now task next progress →
      inv next ∧ ∀ rest, progress.task? = some rest → assertion next rest)
    (hstable : ∀ (pool : Pool δ) index task choice next progress,
      pool.tasks[index]? = some task → guard pool (.advance index choice) →
      inv pool.store → assertion pool.store task →
      Effect setup pool.store choice.now task next progress →
      ∀ other ∈ pool.tasks, assertion pool.store other → assertion next other)
    {pool : Pool δ} {schedule : List (Action δ)}
    (h : Interleaving.Annotated inv assertion pool)
    (halong : Execution.Along (step setup) guard pool schedule) :
    Interleaving.Annotated inv assertion (Execution.run (step setup) pool schedule) := by
  refine Interleaving.annotated_run (fun pool task hguard _ => hspawn pool task hguard) ?_ ?_ h
    halong
  · intro pool index task choice hmem hindex hguard hpool
    refine perform_induction
      (motive := fun next rest? => inv next ∧ ∀ rest, rest? = some rest → assertion next rest)
      ⟨hpool.store, nofun⟩ fun next progress hnext => ?_
    obtain ⟨hinv, hrest⟩ := heffect pool index task choice next progress hindex hguard
      hpool.store (hpool.tasks task hmem) hnext
    exact ⟨⟨hinv, nofun⟩, ⟨hinv, hrest⟩⟩
  · intro pool index task choice hmem hindex hguard hpool
    refine perform_induction (motive := fun next _ => ∀ other ∈ pool.tasks, assertion next other)
      hpool.tasks fun next progress hnext => ?_
    have hother : ∀ other ∈ pool.tasks, assertion next other := fun other hother =>
      hstable pool index task choice next progress hindex hguard hpool.store
        (hpool.tasks task hmem) hnext other hother (hpool.tasks other hother)
    exact ⟨hother, hother⟩

/-! ## Copies of original rows -/

/-- The document is the text of an original row. -/
def IsOriginal (setup : Setup δ) (range : Bytes → Bool) (original : Rows δ)
    (document : ShardDocument) : Prop :=
  ∃ key value, range key = true ∧ original.lookup key = some value ∧
    setup.destination.decode document.data = some (key, value)

section Copies

variable {range : Bytes → Bool} {original : Rows δ}

theorem portion_subset (engine : Engine) (documents : List ShardDocument) :
    (portion engine documents).1 ⊆ documents ∧ (portion engine documents).2 ⊆ documents := by
  cases engine with
  | sql => exact ⟨List.Subset.refl _, List.nil_subset _⟩
  | mongo => exact ⟨List.take_subset _ _, List.drop_subset _ _⟩

/-- Importing original rows keeps the destination within the original, and keeps what
is copied. -/
theorem within_importAll {documents : List ShardDocument} {rows next : Rows δ}
    (hdocuments : ∀ document ∈ documents, IsOriginal setup range original document)
    (h : setup.destination.importAll rows documents = some next) :
    (Within range rows original → Within range next original) ∧
      (Within range original rows → Within range original next) := by
  refine importAll_induction (motive := fun after =>
    (Within range rows original → Within range after original) ∧
      (Within range original rows → Within range original after)) ?_ ⟨id, id⟩ h
  rintro before after document hmem ⟨hsound, hcopied⟩ hone
  obtain ⟨key, value, hkey, horiginal, hdecode⟩ := hdocuments document hmem
  obtain ⟨otherKey, otherValue, hother, hlookup⟩ := lookup_importOne hone
  obtain ⟨rfl, rfl⟩ : key = otherKey ∧ value = otherValue := by
    simpa using hdecode.symm.trans hother
  -- what is written is the original row, so both directions survive an overwrite
  constructor
  · intro hrows k v hk hv
    rw [hlookup] at hv
    split at hv
    · next hwrite =>
        rw [hwrite.1, horiginal]
        exact hv
    · exact hsound hrows k v hk hv
  · intro hrows k v hk hv
    rw [hlookup]
    split
    · next hwrite =>
        rw [hwrite.1, horiginal] at hv
        exact hv
    · exact hcopied hrows k v hk hv

/-- The documents of an export of original rows. -/
theorem isOriginal_of_exported {checkpoint : Bytes} {batch : ShardBatch}
    (hsurvives : ∀ key value, range key = true → original.lookup key = some value →
      Survives setup.source setup.destination key value) (hrange : world.covers = range)
    (hsource : Within range world.source original)
    (hbatch : Exported setup.source world.source world.migration.rangeStart
      world.migration.rangeEnd checkpoint batch) :
    ∀ document ∈ batch.documents, IsOriginal setup range original document := by
  intro document hmem
  obtain ⟨value, hlookup, hpass, hencode⟩ := hbatch.sound document hmem
  have hkey : range document.key = true := by
    rw [← hrange]
    exact inRange_of_exportable hpass
  have horiginal := hsource document.key value hkey hlookup
  exact ⟨document.key, value, hkey, horiginal,
    hsurvives document.key value hkey horiginal document.data hencode⟩

end Copies

/-! ## Two rows on the move -/

/-- Two SQL tables of texts. -/
def textTables : Setup Bytes :=
  ⟨textTable .sql, textTable .sql⟩

/-- The range from `k` to `l` with two rows is to move into an empty table. -/
def plannedMove : World Bytes where
  migration :=
    { id := ascii "m", source := ascii "old", destination := ascii "new"
      rangeStart := ascii "k", rangeEnd := ascii "l" }
  source := (SortedTable.empty.put (ascii "k1") (ascii "one")).put (ascii "k2") (ascii "two")
  destination := .empty

/-- The calls up to the state `verify`. -/
def copyAll : List (Action Bytes) :=
  callAlone .enableDualWrite 1 ++ callAlone .beginBackfill 1 ++ callAlone (.backfillStep 500) 4

end Ubiq.Shard
