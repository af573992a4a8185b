import Ubiq.Shard.System

/-!
# What a successful `Verify` says

`Verify` compares the numbers of rows. `Import` keeps a row that the destination
already has. Together they show that the two ranges are equal exactly when the
destination had no foreign row at the start: a stale row under a key of the source
is kept, counted, and cut over to.
-/

namespace Ubiq.Shard

open Foundation

variable {δ : Type}

/-- The calls that drive a migration to its cutover. -/
def Task.drivesForward : Task δ → Bool
  | .enableDualWrite | .beginBackfill | .backfillStep _ | .verify => true
  | _ => false

/-- Only calls that drive the migration are started. -/
def forwardOnly : Action δ → Bool
  | .spawn task => task.drivesForward
  | .advance _ _ => true

/-- The step is the last one of a `Verify`, which returns `nil`. -/
def verifyReturnsNil (setup : Setup δ) (pool : Pool δ) : Action δ → Bool
  | .spawn _ => false
  | .advance index choice =>
      match pool.tasks[index]? with
      | some (.cuttingOver checkpoint) =>
          match (advance setup pool.store (.cuttingOver checkpoint) choice).2 with
          | .returned (.ok _) => true
          | _ => false
      | _ => false

/-! ## The invariant -/

section Invariant

variable (setup : Setup δ) (range : Bytes → Bool) (original initial : Rows δ)

/-- The source is as it was, the destination has kept its rows and, if these were rows
of the source, has only rows of the source. -/
structure Copying (world : World δ) : Prop where
  covers : world.covers = range
  source : world.source = original
  kept : Within range initial world.destination
  sound : Within range initial original → Within range world.destination original

/-- What a call in flight knows. -/
def Expects (world : World δ) : Task δ → Prop
  | .importing documents _ _ => ∀ document ∈ documents, IsOriginal setup range original document
  | .countingDestination _ a => a = original.count range
  | .cuttingOver _ => Within range initial original → Within range original world.destination
  | .enableDualWrite | .beginBackfill | .backfillStep _ | .exporting _ _ | .saving _ _ | .verify
  | .countingSource _ => True
  | _ => False

end Invariant

variable {setup : Setup δ} {range : Bytes → Bool} {original initial : Rows δ} {world next : World δ}
  {task : Task δ} {now : Int} {progress : Progress δ}

theorem expects_of_drivesForward (h : task.drivesForward = true) :
    Expects setup range original initial world task := by
  cases task <;> trivial

theorem expects_importRest {documents : List ShardDocument} {next : Bytes} {done : Bool}
    (h : ∀ document ∈ documents, IsOriginal setup range original document) :
    Expects setup range original initial world (importRest documents next done) := by
  unfold importRest
  split
  · trivial
  · exact h

/-- The SQL import keeps the rows that exist. -/
theorem within_importAll_sql {documents : List ShardDocument} {rows next : Rows δ}
    (hsql : setup.destination.engine = .sql)
    (h : setup.destination.importAll rows documents = some next) : Within range rows next := by
  refine importAll_induction (motive := fun after => Within range rows after) ?_ (.refl _ _) h
  intro before after document _ hbefore hone k v hk hv
  obtain ⟨key, value, -, hlookup⟩ := lookup_importOne hone
  have hold : before.lookup k = some v := hbefore k v hk hv
  rw [hlookup, if_neg]
  · exact hold
  · -- SQL writes new keys only
    rintro ⟨rfl, hwrites⟩
    simp [Backend.overwrites, hsql, hold] at hwrites

/-! ## Steps -/

theorem Copying.effect
    (hkept : ∀ rows after documents, setup.destination.importAll rows documents = some after →
      Within range initial rows → Within range initial after)
    (h : Copying range original initial world)
    (hexpects : Expects setup range original initial world task)
    (heffect : Effect setup world now task next progress) :
    Copying range original initial next := by
  have hrange : next.covers = range := heffect.covers.trans h.covers
  cases heffect with
  | imported hrows =>
      obtain ⟨hsound, -⟩ := within_importAll (fun document hmem =>
        hexpects document ((portion_subset _ _).1 hmem)) hrows
      exact ⟨hrange, h.source, hkept _ _ _ hrows h.kept, fun hagree => hsound (h.sound hagree)⟩
  | deletedSource checkpoint => exact absurd hexpects id
  | deletedDestination checkpoint => exact absurd hexpects id
  | written key value => exact absurd hexpects id
  | forwarded key value => exact absurd hexpects id
  | _ => exact ⟨hrange, h.source, h.kept, h.sound⟩

theorem expects_rest {rest : Task δ}
    (hsurvives : ∀ key value, range key = true → original.lookup key = some value →
      Survives setup.source setup.destination key value) (h : Copying range original initial world)
    (hexpects : Expects setup range original initial world task)
    (heffect : Effect setup world now task next progress) (hrest : progress.task? = some rest) :
    Expects setup range original initial next rest := by
  cases heffect with
  | exported hbatch =>
      cases hrest
      refine expects_importRest (isOriginal_of_exported hsurvives h.covers ?_ hbatch)
      rw [h.source]
      exact .refl _ _
  | imported hrows =>
      cases hrest
      exact expects_importRest fun document hmem =>
        hexpects document ((portion_subset _ _).2 hmem)
  | countedSource checkpoint =>
      cases hrest
      show world.source.count world.covers = original.count range
      rw [h.source, h.covers]
  | countedDestination checkpoint =>
      cases hrest
      intro hagree
      refine (h.sound hagree).of_count_eq ?_
      have hcount : world.destination.count world.covers = original.count range := hexpects
      rw [h.covers] at hcount
      exact hcount.symm
  | deletes hstate => exact absurd hexpects id
  | keeps hstate => exact absurd hexpects id
  | deletedSource checkpoint => exact absurd hexpects id
  | rollsBack hcut => exact absurd hexpects id
  | deletedDestination checkpoint => exact absurd hexpects id
  | written key value => exact absurd hexpects id
  | _ => cases hrest <;> trivial

theorem expects_other {other : Task δ} (hexpects : Expects setup range original initial world task)
    (heffect : Effect setup world now task next progress)
    (hother : Expects setup range original initial world other) :
    Expects setup range original initial next other := by
  -- the only knowledge about the destination is that it has every original row
  have hcopy : Within range original world.destination →
      Within range original next.destination := by
    intro hcopied
    cases heffect with
    | imported hrows =>
        exact (within_importAll (fun document hmem =>
          hexpects document ((portion_subset _ _).1 hmem)) hrows).2 hcopied
    | deletedDestination checkpoint => exact absurd hexpects id
    | forwarded key value => exact absurd hexpects id
    | _ => exact hcopied
  cases other with
  | cuttingOver checkpoint => exact fun hagree => hcopy (hother hagree)
  | _ => exact hother

theorem cuttingOver_of_verifyReturnsNil {pool : Pool δ} {index : Nat} {choice : Choice}
    (h : verifyReturnsNil setup pool (.advance index choice) = true) :
    ∃ checkpoint, pool.tasks[index]? = some (.cuttingOver checkpoint) := by
  simp only [verifyReturnsNil] at h
  split at h
  · next checkpoint hindex => exact ⟨checkpoint, hindex⟩
  · cases h

/-- The last step of `Verify` changes neither store. -/
theorem step_cuttingOver (setup : Setup δ) {pool : Pool δ} {index : Nat} {checkpoint : Bytes}
    (hindex : pool.tasks[index]? = some (.cuttingOver checkpoint)) (choice : Choice) :
    (step setup pool (.advance index choice)).store.covers = pool.store.covers ∧
      (step setup pool (.advance index choice)).store.source = pool.store.source ∧
      (step setup pool (.advance index choice)).store.destination = pool.store.destination := by
  unfold step
  rw [Interleaving.step_advance_some hindex]
  refine perform_induction (motive := fun next _ => next.covers = pool.store.covers ∧
    next.source = pool.store.source ∧ next.destination = pool.store.destination)
    ⟨rfl, rfl, rfl⟩ fun next progress heffect => ?_
  cases heffect with
  | refused => exact ⟨⟨rfl, rfl, rfl⟩, rfl, rfl, rfl⟩
  | moved => exact ⟨⟨rfl, rfl, rfl⟩, rfl, rfl, rfl⟩

/-- **A `Verify` that returns `nil` shows equality exactly when the destination started
with rows of the source only.** -/
theorem sameRange_iff_initial_within {setup : Setup δ} {world : World δ}
    (hsql : setup.destination.engine = .sql)
    (hsurvives : ∀ key value, world.covers key = true → world.source.lookup key = some value →
      Survives setup.source setup.destination key value)
    {schedule : List (Action δ)}
    (halong : Execution.Along (step setup) (fun _ action => forwardOnly action = true)
      ⟨world, []⟩ schedule)
    {action : Action δ}
    (hnil : verifyReturnsNil setup (Execution.run (step setup) ⟨world, []⟩ schedule) action =
      true) :
    SameRange (step setup (Execution.run (step setup) ⟨world, []⟩ schedule) action).store ↔
      Within world.covers world.destination world.source := by
  have hinit : Interleaving.Annotated (Copying world.covers world.source world.destination)
      (Expects setup world.covers world.source world.destination) ⟨world, []⟩ :=
    ⟨⟨rfl, rfl, .refl _ _, id⟩, fun task hmem => nomatch hmem⟩
  have hrun := annotated_run_effect
    (fun pool task hguard => expects_of_drivesForward hguard)
    (fun pool index task choice next progress _ _ hinv hexpects heffect =>
      ⟨hinv.effect (fun _ _ _ hrows hkept => hkept.trans (within_importAll_sql hsql hrows))
          hexpects heffect,
        fun rest hrest => expects_rest hsurvives hinv hexpects heffect hrest⟩)
    (fun pool index task choice next progress _ _ _ hexpects heffect other _ hother =>
      expects_other hexpects heffect hother)
    hinit halong
  -- from here on only the state at the end of the schedule matters
  revert hnil hrun
  generalize Execution.run (step setup) ⟨world, []⟩ schedule = pool
  intro hnil hrun
  cases action with
  | spawn task => cases hnil
  | advance index choice =>
      obtain ⟨checkpoint, hindex⟩ := cuttingOver_of_verifyReturnsNil hnil
      obtain ⟨hcovers, hsource, hdestination⟩ := step_cuttingOver setup hindex choice
      have hcopied := hrun.tasks _ (List.mem_of_getElem? hindex)
      unfold SameRange
      rw [hcovers, hsource, hdestination, hrun.store.covers, hrun.store.source]
      constructor
      · -- an initial row is still there, hence a row of the source
        intro hsame key value hkey hlookup
        rw [← hsame key hkey]
        exact hrun.store.kept key value hkey hlookup
      · intro hagree key hkey
        exact (hrun.store.sound hagree).antisymm (hcopied hagree) hkey

/-! ## A destination that is not empty -/

/-- The two rows are to move into a table that has a row under the first key. -/
def moveOnto (body : Bytes) : World Bytes :=
  { plannedMove with destination := SortedTable.empty.put (ascii "k1") body }

/-- The calls up to the last step of `Verify`. -/
def copyAndCount : List (Action Bytes) :=
  copyAll ++ callAlone .verify 3

theorem sameRange_resumedCopy :
    SameRange (step textTables
      (Execution.run (step textTables) ⟨moveOnto (ascii "one"), []⟩ copyAndCount)
      (.advance 0 ⟨0, .done⟩)).store := by
  refine (sameRange_iff_initial_within rfl
    (fun key value _ _ => survives_textTable _ _ key value) (by decide +kernel)
    (by decide +kernel)).mpr ?_
  intro key value _ hlookup
  rw [moveOnto, SortedTable.lookup_put] at hlookup
  split at hlookup
  · next hkey =>
      rw [hkey, ← hlookup]
      decide +kernel
  · cases hlookup

/-- **A stale row is cut over to.** `Verify` returns `nil`, and the destination has
another document under the first key. -/
theorem not_sameRange_staleRow :
    (∀ key body, Survives textTables.source textTables.destination key body) ∧
      Execution.Along (step textTables) (fun _ action => forwardOnly action = true)
        ⟨moveOnto (ascii "stale"), []⟩ copyAndCount ∧
      verifyReturnsNil textTables
        (Execution.run (step textTables) ⟨moveOnto (ascii "stale"), []⟩ copyAndCount)
        (.advance 0 ⟨0, .done⟩) = true ∧
      ¬SameRange (step textTables
        (Execution.run (step textTables) ⟨moveOnto (ascii "stale"), []⟩ copyAndCount)
        (.advance 0 ⟨0, .done⟩)).store := by
  refine ⟨survives_textTable _ _, by decide +kernel, by decide +kernel, fun hsame => ?_⟩
  have hfirst := hsame (ascii "k1") (by decide +kernel)
  exact absurd hfirst (by decide +kernel)

end Ubiq.Shard
