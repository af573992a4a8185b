import Ubiq.Shard.Cutover
import Ubiq.Shard.DualWrites

/-!
# Backfill without clients

`BackfillStep` calls that overlap and fail at any operation copy the range into an empty one. Two
calls may save their checkpoints in the wrong order, and a checkpoint may go back to the start; both
only make a later call copy rows again.

The rows in flight are rows of the source (`Copying`, `Expects`), so an import writes nothing else.
What is not copied yet lies behind the checkpoint of the migration and behind that of every call in
flight (`Recorded`, `Owes`), and a call that sets the state `verify` has no checkpoint left.
-/

namespace Ubiq.Shard

open Foundation

variable {δ : Type}

/-- Only the calls that lead to the state `verify` are started; every operation may fail. -/
def backfillOnly : Action δ → Bool
  | .spawn .enableDualWrite | .spawn .beginBackfill | .spawn (.backfillStep _) => true
  | .spawn _ => false
  | .advance _ _ => true

/-- No client writes. -/
def noKey (_ : Bytes) : Bool := false

/-- The stores during a backfill without clients. -/
structure Backfilling (range : Bytes → Bool) (original : Rows δ) (world : World δ) : Prop where
  copying : Copying range original .empty world
  recorded : Recorded world noKey

/-- What a call in flight knows and has done. -/
structure Sound (setup : Setup δ) (range : Bytes → Bool) (original : Rows δ) (world : World δ)
    (task : Task δ) : Prop where
  expects : Expects setup range original .empty world task
  owes : Owes setup world noKey task

section Steps

variable {setup : Setup δ} {range : Bytes → Bool} {original : Rows δ} {world next : World δ}
  {now : Int} {task : Task δ} {progress : Progress δ}

theorem settles_noKey (h : Expects setup range original .empty world task) :
    Settles noKey noKey task := by
  cases task with
  | write key value => exact absurd h id
  | forward key value => exact absurd h id
  | _ => exact fun _ hkey => hkey

/-- No operation opens a gap. -/
theorem Sound.gap (h : Sound setup range original world task)
    (heffect : Effect setup world now task next progress) {key : Bytes}
    (hgap : Gap next noKey key) : Gap world noKey key :=
  hgap.of_effect heffect h.owes (settles_noKey h.expects)

theorem Backfilling.effect (h : Backfilling range original world)
    (hsound : Sound setup range original world task)
    (heffect : Effect setup world now task next progress) : Backfilling range original next where
  copying := h.copying.effect (fun _ _ _ _ _ => .of_empty fun _ _ => rfl) hsound.expects heffect
  recorded := h.recorded.effect heffect hsound.owes fun _ hgap => hsound.gap heffect hgap

theorem Sound.of_effect {later : Task δ}
    (hsurvives : ∀ key value, range key = true → original.lookup key = some value →
      Survives setup.source setup.destination key value)
    (h : Sound setup range original world task) (hworld : Backfilling range original world)
    (heffect : Effect setup world now task next progress) (hrest : progress.task? = some later) :
    Sound setup range original next later := by
  refine ⟨expects_rest hsurvives hworld.copying h.expects heffect hrest, ?_⟩
  refine owes_rest ?_ heffect hworld.recorded h.owes (fun _ hgap => h.gap heffect hgap) hrest
  rw [hworld.copying.covers, hworld.copying.source]
  exact hsurvives

theorem Sound.of_other {other : Task δ} (h : Sound setup range original world task)
    (heffect : Effect setup world now task next progress)
    (hother : Sound setup range original world other) : Sound setup range original next other := by
  refine ⟨expects_other h.expects heffect hother.expects, ?_⟩
  refine owes_other heffect (fun _ hgap => h.gap heffect hgap) h.owes ?_ hother.owes
  -- no call is a client's write
  rintro key first second rfl
  exact absurd h.expects id

end Steps

/-- In the state `verify` the ranges are equal. -/
theorem Backfilling.sameRange {range : Bytes → Bool} {original : Rows δ} {world : World δ}
    (h : Backfilling range original world) (hverify : world.migration.state = .verify) :
    SameRange world := by
  refine sameRange_of_no_bad_key (fun _ => rfl) (h.recorded.verify hverify) ?_
  rintro key ⟨hkey, -, value, hdestination, hsource⟩
  rw [h.copying.covers] at hkey
  rw [h.copying.source] at hsource
  exact hsource (h.copying.sound (.of_empty fun _ _ => rfl) key value hkey hdestination)

/-- **The backfill copies the whole range.** Whatever calls overlap and wherever they fail, once the
state is `verify` an initially empty range of the destination holds the documents of the source and
no others. -/
theorem range_copied_of_verify {setup : Setup δ} {world : World δ}
    (hplanned : world.migration.state = .planned)
    (hempty : ∀ key, world.covers key = true → world.destination.lookup key = none)
    (hsurvives : ∀ key value, world.covers key = true → world.source.lookup key = some value →
      Survives setup.source setup.destination key value)
    {schedule : List (Action δ)} (hbackfill : ∀ action ∈ schedule, backfillOnly action = true)
    (hverify : (Execution.run (step setup) ⟨world, []⟩ schedule).store.migration.state = .verify) :
    ∀ key, world.covers key = true →
      (Execution.run (step setup) ⟨world, []⟩ schedule).store.destination.lookup key =
        world.source.lookup key := by
  have hinit : Interleaving.Annotated (Backfilling world.covers world.source)
      (Sound setup world.covers world.source) ⟨world, []⟩ := by
    refine ⟨⟨⟨rfl, rfl, .of_empty fun _ _ => rfl, fun _ => .of_empty hempty⟩, ?_, ?_⟩,
      fun task hmem => absurd hmem List.not_mem_nil⟩
    · simp [hplanned]
    · simp [hplanned]
  have hrun := annotated_run_effect
    (fun pool task hguard => by cases task <;> first | exact ⟨trivial, trivial⟩ | cases hguard)
    (fun pool index task choice next progress _ _ hworld hsound heffect =>
      ⟨hworld.effect hsound heffect,
        fun rest hrest => hsound.of_effect hsurvives hworld heffect hrest⟩)
    (fun pool index task choice next progress _ _ _ hsound heffect other _ hother =>
      hsound.of_other heffect hother)
    hinit (Execution.along_of_forall hbackfill)
  intro key hkey
  have hsame := hrun.store.sameRange hverify key
  rw [hrun.store.copying.covers, hrun.store.copying.source] at hsame
  exact hsame hkey

/-! ## An interrupted copy -/

/-- The two rows are copied into Mongo. One call fails in the middle of its import. Two others read
the same checkpoint; the first saves its checkpoint, the second fails to. The last two calls copy
the rest. -/
def interruptedCopy : List (Action Bytes) :=
  callAlone .enableDualWrite 1 ++ callAlone .beginBackfill 1 ++
    callAlone (.backfillStep 0) 3 ++ [.advance 0 ⟨0, .lost⟩] ++
    [.spawn (.backfillStep 1), .spawn (.backfillStep 1), .advance 0 ⟨0, .done⟩,
      .advance 1 ⟨0, .done⟩, .advance 1 ⟨0, .done⟩] ++
    List.replicate 3 (.advance 0 ⟨0, .done⟩) ++ [.advance 0 ⟨0, .done⟩, .advance 0 ⟨0, .lost⟩] ++
    callAlone (.backfillStep 1) 4 ++ callAlone (.backfillStep 1) 3

theorem range_copied_interruptedCopy :
    (Execution.run (step ⟨textTable .sql, textTable .mongo⟩) ⟨plannedMove, []⟩
        interruptedCopy).store.migration.state = .verify ∧
      ∀ key, plannedMove.covers key = true →
        (Execution.run (step ⟨textTable .sql, textTable .mongo⟩) ⟨plannedMove, []⟩
          interruptedCopy).store.destination.lookup key = plannedMove.source.lookup key := by
  have hverify : (Execution.run (step ⟨textTable .sql, textTable .mongo⟩) ⟨plannedMove, []⟩
      interruptedCopy).store.migration.state = .verify := by decide +kernel
  exact ⟨hverify, range_copied_of_verify rfl (fun _ _ => rfl)
    (fun key value _ _ => survives_textTable _ _ key value) (by decide +kernel) hverify⟩

end Ubiq.Shard
