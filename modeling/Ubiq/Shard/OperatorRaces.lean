import Ubiq.Shard.System

/-!
# Operators that race on one migration

Any number of operators call `EnableDualWrite`, `BeginBackfill`, `BackfillStep`,
`Verify`, `Complete` and `Rollback` on one migration, without clients. The
documents of the range must stay in the authoritative store: the source, and after
the cutover the destination.

`Rollback` reads the state, empties the destination and only then changes the
state. A `Verify` that cuts over in between has its documents deleted. Nothing
else goes wrong: the proof annotates every call in flight with what it knows, and
the deletion is the only step that can invalidate an annotation.
-/

namespace Ubiq.Shard

open Foundation

variable {δ : Type}

/-- The calls of operators. -/
def Task.isOperatorCall : Task δ → Bool
  | .enableDualWrite | .beginBackfill | .backfillStep _ | .verify | .complete _ | .rollback => true
  | _ => false

/-- Only operators start calls. -/
def operatorsOnly : Action δ → Bool
  | .spawn task => task.isOperatorCall
  | .advance _ _ => true

/-- A `Verify` that has compared the counts. -/
def Task.isCuttingOver : Task δ → Bool
  | .cuttingOver _ => true
  | _ => false

/-- A `Rollback` empties the destination before the cutover, and while no `Verify` is
about to cut over. -/
def rollbackInTime (pool : Pool δ) : Action δ → Bool
  | .spawn _ => true
  | .advance index _ =>
      match pool.tasks[index]? with
      | some (.deletingDestination _) =>
          !decide pool.store.IsCut && pool.tasks.all fun task => !task.isCuttingOver
      | _ => true

/-- The store that answers for the range. -/
def World.authoritative (world : World δ) : Rows δ :=
  if world.IsCut then world.destination else world.source

/-- A planned migration into an empty range, of documents that survive the way
through JSON. -/
structure Prepared (setup : Setup δ) (world : World δ) : Prop where
  planned : world.migration.state = .planned
  empty : ∀ key, world.covers key = true → world.destination.lookup key = none
  survives : ∀ key value, world.covers key = true → world.source.lookup key = some value →
    Survives setup.source setup.destination key value

/-- No schedule of operators that meets the guard loses a document of the source
range. -/
def NeverLoses (setup : Setup δ) (world : World δ) (guard : Pool δ → Action δ → Bool) : Prop :=
  ∀ schedule, Execution.Along (step setup)
      (fun pool action => operatorsOnly action = true ∧ guard pool action = true)
      ⟨world, []⟩ schedule →
    Within world.covers world.source
      (Execution.run (step setup) ⟨world, []⟩ schedule).store.authoritative

/-! ## The invariant -/

section Invariant

variable (setup : Setup δ) (range : Bytes → Bool) (original : Rows δ)

/-- What holds of the two stores. -/
structure Intact (world : World δ) : Prop where
  covers : world.covers = range
  source : Within range world.source original
  kept : ¬world.IsCut → Within range original world.source
  destination : Within range world.destination original
  copied : world.IsCut → Within range original world.destination

/-- What a call in flight knows. -/
def Knows (world : World δ) : Task δ → Prop
  | .importing documents _ _ => ∀ document ∈ documents, IsOriginal setup range original document
  | .countingDestination _ a => world.IsCut ∨ a = original.count range
  | .cuttingOver _ => world.IsCut ∨ Within range original world.destination
  | .deletingSource _ => world.IsCut
  | .write _ _ => False
  | .forward _ _ => False
  | _ => True

end Invariant

variable {setup : Setup δ} {range : Bytes → Bool} {original : Rows δ} {world next : World δ}
  {task : Task δ} {progress : Progress δ}

theorem Intact.authoritative (h : Intact range original world) :
    Within range original world.authoritative := by
  unfold World.authoritative
  split
  · next hcut => exact h.copied hcut
  · next hcut => exact h.kept hcut

theorem knows_of_isOperatorCall (h : task.isOperatorCall = true) :
    Knows setup range original world task := by
  cases task <;> trivial

theorem knows_importRest {documents : List ShardDocument} {next : Bytes} {done : Bool}
    (h : ∀ document ∈ documents, IsOriginal setup range original document) :
    Knows setup range original world (importRest documents next done) := by
  unfold importRest
  split
  · trivial
  · exact h

/-- What a call knows survives while the cut does and, for a `Verify` about to cut
over, the copy does. -/
theorem Knows.mono (h : Knows setup range original world task) (hcut : world.IsCut → next.IsCut)
    (hcopy : task.isCuttingOver = true → Within range original world.destination →
      Within range original next.destination) :
    Knows setup range original next task := by
  cases task with
  | countingDestination checkpoint a => exact h.imp_left hcut
  | cuttingOver checkpoint => exact h.imp hcut (hcopy rfl)
  | deletingSource checkpoint => exact hcut h
  | _ => exact h

/-! ## Steps -/

/-- Only `Verify` and `Complete` lead to a cut, the latter from a cut. -/
theorem moved_isCut {transition : Transition} {checkpoint : Bytes} {now : Int}
    (htask : task.transition? = some (transition, checkpoint))
    (hstate : world.migration.state ∈ transition.sources) (hcut : World.IsCut { world with
      migration := world.migration.moved transition.target checkpoint now }) :
    task = .cuttingOver checkpoint ∧ ¬world.IsCut ∨ world.IsCut := by
  cases transition with
  | cutOver =>
      left
      have hverify : world.migration.state = .verify := by
        simpa [Transition.sources] using hstate
      refine ⟨?_, by simp [MigrationState.IsCut, hverify]⟩
      cases task with
      | cuttingOver other =>
          simp only [Task.transition?, Option.some.injEq, Prod.mk.injEq, true_and] at htask
          rw [htask]
      | saving next done => cases done <;> simp [Task.transition?] at htask
      | _ => simp [Task.transition?] at htask
  | complete => exact Or.inr (Or.inl (by simpa [Transition.sources] using hstate))
  | _ => simp [MigrationState.IsCut, Migration.moved, Transition.target] at hcut

/-- An operator's step keeps the stores intact. -/
theorem Intact.effect {pool : Pool δ} {index : Nat} {choice : Choice}
    (hindex : pool.tasks[index]? = some task)
    (hguard : rollbackInTime pool (.advance index choice) = true)
    (h : Intact range original pool.store) (hknows : Knows setup range original pool.store task)
    (heffect : Effect setup pool.store choice.now task next progress) :
    Intact range original next := by
  have hrange : next.covers = range := heffect.covers.trans h.covers
  have hpermanent : pool.store.IsCut → next.IsCut := heffect.isCut
  cases heffect with
  | moved htask hstate =>
      refine ⟨hrange, h.source, ?_, h.destination, ?_⟩
      · exact fun hcut => h.kept fun hold => hcut (hpermanent hold)
      · intro hcut
        rcases moved_isCut htask hstate hcut with ⟨rfl, hnot⟩ | hold
        · exact hknows.resolve_left hnot
        · exact h.copied hold
  | saved text =>
      refine ⟨hrange, h.source, fun hcut => h.kept fun hold => hcut (hpermanent hold),
        h.destination, fun hcut => h.copied ?_⟩
      simpa only [World.IsCut, Migration.state_saveCheckpoint] using hcut
  | imported hrows =>
      obtain ⟨hsound, hcopied⟩ := within_importAll (fun document hmem =>
        hknows document ((portion_subset _ _).1 hmem)) hrows
      exact ⟨hrange, h.source, h.kept, hsound h.destination, fun hcut => hcopied (h.copied hcut)⟩
  | deletedSource checkpoint =>
      -- `Complete` has seen the cutover, so the source no longer counts
      exact ⟨hrange, h.source.deleteRange _ _, fun hcut => absurd hknows hcut, h.destination,
        h.copied⟩
  | deletedDestination checkpoint =>
      have hcut : ¬pool.store.IsCut := by
        simp only [rollbackInTime, hindex, Bool.and_eq_true, Bool.not_eq_true',
          decide_eq_false_iff_not] at hguard
        exact hguard.1
      exact ⟨hrange, h.source, h.kept, h.destination.deleteRange _ _,
        fun hold => absurd hold hcut⟩
  | written key value => exact absurd hknows id
  | forwarded key value => exact absurd hknows id
  | _ => exact ⟨hrange, h.source, h.kept, h.destination, h.copied⟩

/-- What the rest of a call knows. -/
theorem knows_rest {rest : Task δ} {now : Int}
    (hsurvives : ∀ key value, range key = true → original.lookup key = some value →
      Survives setup.source setup.destination key value) (h : Intact range original world)
    (hknows : Knows setup range original world task)
    (heffect : Effect setup world now task next progress) (hrest : progress.task? = some rest) :
    Knows setup range original next rest := by
  cases heffect with
  | exported hbatch =>
      cases hrest
      exact knows_importRest (isOriginal_of_exported hsurvives h.covers h.source hbatch)
  | imported hrows =>
      cases hrest
      exact knows_importRest fun document hmem => hknows document ((portion_subset _ _).2 hmem)
  | countedSource checkpoint =>
      cases hrest
      -- until the cutover the source is the original, row for row
      by_cases hcut : world.IsCut
      · exact Or.inl hcut
      · refine Or.inr ?_
        have hcount := h.source.count_eq (h.kept hcut)
        rw [← h.covers] at hcount ⊢
        exact hcount
  | countedDestination checkpoint =>
      cases hrest
      -- as many rows as the original, and only rows of it
      refine hknows.imp id fun hcount => h.destination.of_count_eq ?_
      rw [← h.covers] at hcount ⊢
      exact hcount.symm
  | deletes hstate =>
      cases hrest
      exact Or.inl hstate
  | written key value => exact absurd hknows id
  | forwarded key value => exact absurd hknows id
  | _ => cases hrest <;> trivial

/-- What the other calls know. -/
theorem knows_other {pool : Pool δ} {index : Nat} {choice : Choice}
    (hindex : pool.tasks[index]? = some task)
    (hguard : rollbackInTime pool (.advance index choice) = true)
    (hknows : Knows setup range original pool.store task)
    (heffect : Effect setup pool.store choice.now task next progress) {other : Task δ}
    (hmem : other ∈ pool.tasks) (hother : Knows setup range original pool.store other) :
    Knows setup range original next other := by
  refine hother.mono heffect.isCut ?_
  intro hcutting hcopied
  cases heffect with
  | imported hrows =>
      exact (within_importAll (fun document hdocument =>
        hknows document ((portion_subset _ _).1 hdocument)) hrows).2 hcopied
  | deletedDestination checkpoint =>
      -- the guard rules out a `Verify` that relies on the copy
      simp only [rollbackInTime, hindex, Bool.and_eq_true, List.all_eq_true] at hguard
      have hnot := hguard.2 other hmem
      rw [hcutting] at hnot
      cases hnot
  | written key value => exact absurd hknows id
  | forwarded key value => exact absurd hknows id
  | _ => exact hcopied

/-- **No document is lost** if every `Rollback` empties the destination in time. -/
theorem neverLoses_of_rollbackInTime {setup : Setup δ} {world : World δ}
    (h : Prepared setup world) : NeverLoses setup world rollbackInTime := by
  intro schedule halong
  have hcut : ¬world.IsCut := by simp [MigrationState.IsCut, h.planned]
  have hinit : Interleaving.Annotated (Intact world.covers world.source)
      (Knows setup world.covers world.source) ⟨world, []⟩ := by
    refine ⟨⟨rfl, .refl _ _, fun _ => .refl _ _, .of_empty h.empty, fun hold => absurd hold hcut⟩,
      ?_⟩
    exact fun task hmem => nomatch hmem
  have hrun := annotated_run_effect
    (fun pool task hguard => knows_of_isOperatorCall hguard.1)
    (fun pool index task choice next progress hindex hguard hinv hknows heffect =>
      ⟨hinv.effect hindex hguard.2 hknows heffect,
        fun rest hrest => knows_rest h.survives hinv hknows heffect hrest⟩)
    (fun pool index task choice next progress hindex hguard hinv hknows heffect other hmem
      hother => knows_other hindex hguard.2 hknows heffect hmem hother)
    hinit halong
  exact hrun.store.authoritative

theorem prepared_plannedMove : Prepared textTables plannedMove :=
  ⟨rfl, fun _ _ => rfl, fun key value _ _ => survives_textTable _ _ key value⟩

/-- A `Rollback` is refused after the cutover, and the source is emptied. -/
def lateRollback : List (Action Bytes) :=
  copyAll ++ callAlone .verify 4 ++ callAlone .rollback 1 ++ callAlone (.complete true) 3

/-- A `Rollback` starts, a `Verify` cuts over, and the `Rollback` goes on. -/
def overtakenRollback : List (Action Bytes) :=
  copyAll ++ callAlone .rollback 1 ++
    (.spawn .verify :: List.replicate 4 (.advance 1 ⟨0, .done⟩)) ++ [.advance 0 ⟨0, .done⟩]

theorem neverLoses_lateRollback :
    (Execution.run (step textTables) ⟨plannedMove, []⟩ lateRollback).store.migration.state =
        .complete ∧
      Within plannedMove.covers plannedMove.source
        (Execution.run (step textTables) ⟨plannedMove, []⟩ lateRollback).store.authoritative :=
  ⟨by decide +kernel,
    neverLoses_of_rollbackInTime prepared_plannedMove lateRollback (by decide +kernel)⟩

/-- **A document is lost.** The migration is cut over and its destination is empty. -/
theorem not_neverLoses_overtakenRollback :
    Prepared textTables plannedMove ∧
      ¬NeverLoses textTables plannedMove (fun _ _ => true) := by
  refine ⟨prepared_plannedMove, fun h => ?_⟩
  have hkept := h overtakenRollback (by decide +kernel) (ascii "k1") (ascii "one")
    (by decide +kernel) (by decide +kernel)
  exact absurd hkept (by decide +kernel)

end Ubiq.Shard
