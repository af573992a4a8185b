import Ubiq.Shard.Migration
import Ubiq.Foundation.Execution

/-!
# The owner of a key and `TargetsForWrite`

The owner of a key is the source of the first migration that covers it, and the
destination of every migration that is cut over from then on. `TargetsForWrite` is
a union over all migrations that are not rolled back, whatever their age.

So it forgets the owner when the only migrations of a key are rolled back, and it
keeps naming the destination of an old migration after the next one has moved the
key away. In histories without these two situations, in which every migration
starts at the owner, it names the owner, and only the owner when no migration of the
key is copying.

The statements of several migrations on the table do not disturb each other (`isolated_run`).
-/

namespace Ubiq.Shard

open Foundation
open Coordinator (covers)

/-- The statements on the migration table. -/
inductive Event
  | register (id : Bytes)
  | create (migration : Migration) (now : Int)
  | change (id : Bytes) (transition : Transition) (checkpoint : Bytes) (now : Int)
  | saveCheckpoint (id checkpoint : Bytes) (now : Int)
deriving DecidableEq, Repr

/-- The coordinator, and the owner of the key under study. -/
structure History where
  coordinator : Coordinator := {}
  owner : Option Bytes := none
deriving DecidableEq, Repr

namespace History

/-- The owner after an event. -/
def ownerAfter (key : Bytes) (history : History) : Event → Option Bytes
  | .create migration now =>
      match (history.coordinator.create migration now).2 with
      | .ok _ =>
          if covers migration key then some (history.owner.getD migration.source)
          else history.owner
      | .error _ => history.owner
  | .change id .cutOver _ _ =>
      match history.coordinator.get id with
      | some migration =>
          if covers migration key = true ∧ migration.state = .verify then
            some migration.destination
          else history.owner
      | none => history.owner
  | _ => history.owner

/-- One event. -/
def step (key : Bytes) (history : History) (event : Event) : History where
  coordinator :=
    match event with
    | .register id => (history.coordinator.register id).1
    | .create migration now => (history.coordinator.create migration now).1
    | .change id transition checkpoint now =>
        (history.coordinator.setState id transition checkpoint now).1
    | .saveCheckpoint id checkpoint now => history.coordinator.saveCheckpoint id checkpoint now
  owner := history.ownerAfter key event

/-- Some migration of the key is copying. -/
def isCopying (key : Bytes) (history : History) : Bool :=
  history.coordinator.migrations.any fun migration =>
    covers migration key && decide (migration.state ∈
      [MigrationState.dualWrite, .backfill, .verify])

/-- `TargetsForWrite` names the owner, and nobody else when nothing is being copied. -/
def NamesOwner (key : Bytes) (history : History) : Prop :=
  ∀ owner, history.owner = some owner →
    owner ∈ history.coordinator.targetsForWrite key ∧
      (history.isCopying key = false →
        ∀ id ∈ history.coordinator.targetsForWrite key, id = owner)

/-- The migration does not contradict a cutover to the destination. -/
def yields (key destination : Bytes) (migration : Migration) : Bool :=
  decide (covers migration key = true → (migration.state.IsCut → migration.destination = destination) ∧
    (migration.state = .planned → migration.source = destination))

/-- Every migration starts at the owner; a cutover is the only one of its key, with no
other migration planned; a rollback leaves a migration of the key. -/
def orderly (key : Bytes) (history : History) : Event → Bool
  | .create migration _ =>
      !covers migration key || history.owner.all fun owner => migration.source = owner
  | .change id .cutOver _ _ =>
      match history.coordinator.get id with
      | some migration =>
          !(covers migration key && decide (migration.state = .verify)) ||
            history.coordinator.migrations.all fun other =>
              decide (other.id = id) || yields key migration.destination other
      | none => true
  | .change id .rollback _ _ =>
      match history.coordinator.get id with
      | some migration =>
          !(covers migration key && decide (migration.state ∈ Transition.rollback.sources)) ||
            history.coordinator.migrations.any fun other =>
              decide (other.id ≠ id) && covers other key && decide (other.state ≠ .rolledBack)
      | none => true
  | _ => true

end History

/-! ## The invariant -/

/-- The rows of the key agree with its owner. -/
structure Agreed (key : Bytes) (rows : List Migration) (owner : Option Bytes) : Prop where
  nodup : (rows.map Migration.id).Nodup
  unowned : owner = none → ∀ migration ∈ rows, covers migration key = false
  cut : ∀ o, owner = some o → ∀ migration ∈ rows, covers migration key = true →
    migration.state.IsCut → migration.destination = o
  planned : ∀ o, owner = some o → ∀ migration ∈ rows, covers migration key = true →
    migration.state = .planned → migration.source = o
  uncut : ∀ o, owner = some o →
    (∀ migration ∈ rows, covers migration key = true → ¬migration.state.IsCut) →
    ∀ migration ∈ rows, covers migration key = true → migration.state ≠ .rolledBack →
      migration.source = o
  live : owner ≠ none → ∃ migration ∈ rows, covers migration key = true ∧
    migration.state ≠ .rolledBack

/-- The migration table of a history agrees with its owner. -/
def History.IsAgreed (key : Bytes) (history : History) : Prop :=
  Agreed key history.coordinator.migrations history.owner

variable {migration : Migration} {history : History}

theorem source_mem_writeTargets (hcut : ¬migration.state.IsCut)
    (hrolled : migration.state ≠ .rolledBack) :
    migration.source ∈ Coordinator.writeTargets migration := by
  unfold Coordinator.writeTargets
  cases hstate : migration.state <;> simp_all [MigrationState.IsCut]

theorem writeTargets_of_isCut (hcut : migration.state.IsCut) :
    Coordinator.writeTargets migration = [migration.destination] := by
  unfold Coordinator.writeTargets
  rcases hcut with hstate | hstate <;> rw [hstate]

/-- **The union names the owner** when the rows agree with it. -/
theorem History.IsAgreed.namesOwner {key : Bytes} (h : history.IsAgreed key) :
    history.NamesOwner key := by
  intro owner howner
  constructor
  · rw [Coordinator.mem_targetsForWrite]
    -- a cut row names the owner as its destination, or else some live row as its source
    by_cases hcut : ∃ migration ∈ history.coordinator.migrations,
        covers migration key = true ∧ migration.state.IsCut
    · obtain ⟨migration, hmem, hcovers, hstate⟩ := hcut
      refine ⟨migration, hmem, hcovers, ?_⟩
      rw [writeTargets_of_isCut hstate, h.cut owner howner migration hmem hcovers hstate]
      exact List.mem_singleton.mpr rfl
    · have huncut : ∀ migration ∈ history.coordinator.migrations,
          covers migration key = true → ¬migration.state.IsCut :=
        fun migration hmem hcovers hstate => hcut ⟨migration, hmem, hcovers, hstate⟩
      obtain ⟨migration, hmem, hcovers, hlive⟩ := h.live (by simp [howner])
      refine ⟨migration, hmem, hcovers, ?_⟩
      rw [← h.uncut owner howner huncut migration hmem hcovers hlive]
      exact source_mem_writeTargets (huncut migration hmem hcovers) hlive
  · intro hquiet id hid
    obtain ⟨migration, hmem, hcovers, htarget⟩ := Coordinator.mem_targetsForWrite.mp hid
    have hstill : migration.state ∉ [MigrationState.dualWrite, .backfill, .verify] := by
      have hall := List.any_eq_false.mp hquiet migration hmem
      simpa [hcovers] using hall
    cases hstate : migration.state with
    | planned =>
        simp only [Coordinator.writeTargets, hstate, List.mem_singleton] at htarget
        rw [htarget, h.planned owner howner migration hmem hcovers hstate]
    | cutover =>
        rw [writeTargets_of_isCut (Or.inl hstate), List.mem_singleton] at htarget
        rw [htarget, h.cut owner howner migration hmem hcovers (Or.inl hstate)]
    | complete =>
        rw [writeTargets_of_isCut (Or.inr hstate), List.mem_singleton] at htarget
        rw [htarget, h.cut owner howner migration hmem hcovers (Or.inr hstate)]
    | rolledBack => simp [Coordinator.writeTargets, hstate] at htarget
    | _ => simp [hstate] at hstill

/-! ## Events -/

/-- A statement changes at most the state, the checkpoint and the time of a row. -/
structure SameMove (first second : Migration) : Prop where
  id : second.id = first.id
  source : second.source = first.source
  destination : second.destination = first.destination
  covers : ∀ key, covers second key = covers first key

/-- The row after an update. -/
def updated (test : Migration → Bool) (target : MigrationState) (checkpoint : Bytes) (now : Int)
    (migration : Migration) : Migration :=
  if test migration then migration.moved target checkpoint now else migration

section Update

variable {test : Migration → Bool} {target : MigrationState} {checkpoint key : Bytes} {now : Int}
  {rows : List Migration} {owner : Option Bytes}

theorem sameMove_updated (migration : Migration) :
    SameMove migration (updated test target checkpoint now migration) := by
  unfold updated
  split
  · exact ⟨rfl, rfl, rfl, fun _ => rfl⟩
  · exact ⟨rfl, rfl, rfl, fun _ => rfl⟩

theorem map_id_updated (rows : List Migration) :
    ((rows.map (updated test target checkpoint now)).map Migration.id) =
      rows.map Migration.id := by
  rw [List.map_map]
  exact List.map_congr_left fun migration _ => (sameMove_updated migration).id

/-- A row of the key after an update, and the row it was. -/
theorem exists_of_mem_updated (hmem : migration ∈ rows.map (updated test target checkpoint now))
    (hcovers : covers migration key = true) :
    ∃ old ∈ rows, covers old key = true ∧ updated test target checkpoint now old = migration := by
  obtain ⟨old, hold, rfl⟩ := List.mem_map.mp hmem
  exact ⟨old, hold, (sameMove_updated old).covers key ▸ hcovers, rfl⟩

/-- **Frame rule.** An update that leaves the cut rows of the key cut and the others
uncut, plans none and revives none keeps the agreement. -/
theorem Agreed.update (h : Agreed key rows owner)
    (hcut : ∀ migration ∈ rows, covers migration key = true → test migration = true →
      (target.IsCut ↔ migration.state.IsCut) ∧ target ≠ .planned ∧
        migration.state ≠ .rolledBack)
    (hlive : owner ≠ none → ∃ migration ∈ rows, covers migration key = true ∧
      (updated test target checkpoint now migration).state ≠ .rolledBack) :
    Agreed key (rows.map (updated test target checkpoint now)) owner := by
  have hstate : ∀ migration ∈ rows, covers migration key = true →
      ((updated test target checkpoint now migration).state.IsCut ↔ migration.state.IsCut) ∧
      ((updated test target checkpoint now migration).state = .planned →
        migration.state = .planned) ∧
      ((updated test target checkpoint now migration).state ≠ .rolledBack →
        migration.state ≠ .rolledBack) := by
    intro migration hmem hcovers
    unfold updated
    split
    · next htest =>
        obtain ⟨hiff, hplanned, hrolled⟩ := hcut migration hmem hcovers htest
        exact ⟨hiff, fun htarget => absurd htarget hplanned, fun _ => hrolled⟩
    · exact ⟨Iff.rfl, id, id⟩
  constructor
  · rw [map_id_updated]
    exact h.nodup
  · intro hnone migration hmem
    obtain ⟨old, hold, rfl⟩ := List.mem_map.mp hmem
    rw [(sameMove_updated old).covers]
    exact h.unowned hnone old hold
  · intro o ho migration hmem hcovers hiscut
    obtain ⟨old, hold, hcoversOld, rfl⟩ := exists_of_mem_updated hmem hcovers
    rw [(sameMove_updated old).destination]
    exact h.cut o ho old hold hcoversOld ((hstate old hold hcoversOld).1.mp hiscut)
  · intro o ho migration hmem hcovers hplanned
    obtain ⟨old, hold, hcoversOld, rfl⟩ := exists_of_mem_updated hmem hcovers
    rw [(sameMove_updated old).source]
    exact h.planned o ho old hold hcoversOld ((hstate old hold hcoversOld).2.1 hplanned)
  · intro o ho huncut migration hmem hcovers hrolled
    obtain ⟨old, hold, hcoversOld, rfl⟩ := exists_of_mem_updated hmem hcovers
    rw [(sameMove_updated old).source]
    refine h.uncut o ho (fun other hother hcoversOther hcutOther => ?_) old hold hcoversOld
      ((hstate old hold hcoversOld).2.2 hrolled)
    refine huncut _ (List.mem_map.mpr ⟨other, hother, rfl⟩) ?_
      ((hstate other hother hcoversOther).1.mpr hcutOther)
    rw [(sameMove_updated other).covers]
    exact hcoversOther
  · intro hsome
    obtain ⟨migration, hmem, hcovers, hrolled⟩ := hlive hsome
    refine ⟨_, List.mem_map.mpr ⟨migration, hmem, rfl⟩, ?_, hrolled⟩
    rw [(sameMove_updated migration).covers]
    exact hcovers

/-- An update that rolls nothing back leaves a migration of the key. -/
theorem Agreed.live_updated (h : Agreed key rows owner) (htarget : target ≠ .rolledBack)
    (hsome : owner ≠ none) : ∃ migration ∈ rows, covers migration key = true ∧
      (updated test target checkpoint now migration).state ≠ .rolledBack := by
  obtain ⟨migration, hmem, hcovers, hlive⟩ := h.live hsome
  refine ⟨migration, hmem, hcovers, ?_⟩
  unfold updated
  split
  · exact htarget
  · exact hlive

end Update

variable {key id : Bytes} {transition : Transition}

variable {checkpoint : Bytes} {rows : List Migration} {owner : Option Bytes} {now : Int}

/-- A new row of the key starts at its owner. -/
theorem Agreed.concat (h : Agreed key rows owner)
    (hnew : ∀ other ∈ rows, other.id ≠ migration.id) (hplanned : migration.state = .planned)
    (hsource : ∀ o, owner = some o → covers migration key = true → migration.source = o) :
    Agreed key (rows ++ [migration])
      (if covers migration key then some (owner.getD migration.source) else owner) := by
  have hcutNew : ¬migration.state.IsCut := by simp [hplanned, MigrationState.IsCut]
  -- rows of the key exist only if there is an owner, and then the owner stays
  have hold : ∀ o, (if covers migration key then some (owner.getD migration.source) else owner) =
      some o → ∀ other ∈ rows, covers other key = true → owner = some o := by
    intro o ho other hmem hcovers
    cases owner with
    | none => simp [h.unowned rfl other hmem] at hcovers
    | some first => simpa using ho
  have hnewSource : ∀ o, (if covers migration key then some (owner.getD migration.source)
      else owner) = some o → covers migration key = true → migration.source = o := by
    intro o ho hcovers
    rw [if_pos hcovers] at ho
    cases owner with
    | none => exact Option.some.inj ho
    | some first => exact hsource o ho hcovers
  constructor
  · exact Keyed.nodup_concat h.nodup hnew
  · intro hnone
    split at hnone
    · cases hnone
    · next hcovers =>
        exact List.forall_mem_append.mpr
          ⟨h.unowned hnone, List.forall_mem_singleton.mpr (Bool.eq_false_iff.mpr hcovers)⟩
  · intro o ho
    refine List.forall_mem_append.mpr ⟨fun other hmem hcovers => ?_,
      List.forall_mem_singleton.mpr fun _ hiscut => absurd hiscut hcutNew⟩
    exact h.cut o (hold o ho other hmem hcovers) other hmem hcovers
  · intro o ho
    refine List.forall_mem_append.mpr ⟨fun other hmem hcovers => ?_,
      List.forall_mem_singleton.mpr fun hcovers _ => hnewSource o ho hcovers⟩
    exact h.planned o (hold o ho other hmem hcovers) other hmem hcovers
  · intro o ho huncut
    refine List.forall_mem_append.mpr ⟨fun other hmem hcovers => ?_,
      List.forall_mem_singleton.mpr fun hcovers _ => hnewSource o ho hcovers⟩
    exact h.uncut o (hold o ho other hmem hcovers)
      (fun row hrow => huncut row (List.mem_append_left _ hrow)) other hmem hcovers
  · intro hsome
    by_cases hcovers : covers migration key = true
    · exact ⟨migration, by simp, hcovers, by simp [hplanned]⟩
    · rw [if_neg hcovers] at hsome
      obtain ⟨row, hrow, hrest⟩ := h.live hsome
      exact ⟨row, List.mem_append_left _ hrow, hrest⟩

/-- `Create` refuses, or adds a planned row with a new id. -/
theorem create_cases (coordinator : Coordinator) (migration : Migration) (now : Int) :
    (∃ err, coordinator.create migration now = (coordinator, .error err)) ∨
      (∀ other ∈ coordinator.migrations, other.id ≠ migration.id) ∧
        coordinator.create migration now =
          ({ coordinator with
              migrations := coordinator.migrations ++ [migration.moved .planned [] now] },
            .ok ()) := by
  unfold Coordinator.create
  split
  · exact Or.inl ⟨_, rfl⟩
  split
  · exact Or.inl ⟨_, rfl⟩
  split
  · exact Or.inl ⟨_, rfl⟩
  split
  · exact Or.inl ⟨_, rfl⟩
  · next hfresh => exact Or.inr ⟨by simpa using hfresh, rfl⟩

/-- Every state change but the cutover fits the frame rule. -/
theorem Transition.keeps_cut (h : transition ≠ .cutOver) {state : MigrationState}
    (hstate : state ∈ transition.sources) :
    (transition.target.IsCut ↔ state.IsCut) ∧ transition.target ≠ .planned ∧
      state ≠ .rolledBack := by
  revert hstate
  cases transition <;> cases state <;> first | exact absurd rfl h | decide

theorem state_mem_of_movable (h : Coordinator.movable id transition migration = true) :
    migration.id = id ∧ migration.state ∈ transition.sources := by
  simpa [Coordinator.movable] using h

theorem updated_of_id_ne {target : MigrationState} (h : migration.id ≠ id) :
    updated (Coordinator.movable id transition) target checkpoint now migration = migration :=
  if_neg fun hmovable => h (state_mem_of_movable hmovable).1

/-- A cutover makes the destination the owner, if the other rows of the key yield. -/
theorem Agreed.cutOver (h : Agreed key rows owner)
    (hrow : Table.lookup Migration.id id rows = some migration)
    (hcovers : covers migration key = true) (hverify : migration.state = .verify)
    (hyields : ∀ other ∈ rows, other.id = id ∨
      History.yields key migration.destination other = true) :
    Agreed key (rows.map (updated (Coordinator.movable id .cutOver) .cutover checkpoint now))
      (some migration.destination) := by
  obtain ⟨hmem, hid⟩ := Table.mem_of_lookup hrow
  have hmoved : updated (Coordinator.movable id .cutOver) .cutover checkpoint now migration =
      migration.moved .cutover checkpoint now :=
    if_pos (by simp [Coordinator.movable, hid, hverify, Transition.sources])
  -- a row of the key is the row that is cut over, or is unchanged and yields
  have hrows : ∀ row ∈ rows.map (updated (Coordinator.movable id .cutOver) .cutover checkpoint now),
      covers row key = true → row = migration.moved .cutover checkpoint now ∨
        (row.state.IsCut → row.destination = migration.destination) ∧
          (row.state = .planned → row.source = migration.destination) := by
    intro row hrowMem hrowCovers
    obtain ⟨old, hold, hcoversOld, rfl⟩ := exists_of_mem_updated hrowMem hrowCovers
    by_cases hsame : old.id = id
    · have heq : old = migration := by
        have hlookup := (Table.lookup_eq_some_iff h.nodup).mpr ⟨hold, hsame⟩
        exact Option.some.inj (hlookup.symm.trans hrow)
      rw [heq]
      exact Or.inl hmoved
    · rw [updated_of_id_ne hsame]
      have hyield := (hyields old hold).resolve_left hsame
      simp only [History.yields, decide_eq_true_eq] at hyield
      exact Or.inr (hyield hcoversOld)
  have hin : migration.moved .cutover checkpoint now ∈
      rows.map (updated (Coordinator.movable id .cutOver) .cutover checkpoint now) :=
    List.mem_map.mpr ⟨migration, hmem, hmoved⟩
  constructor
  · rw [map_id_updated]
    exact h.nodup
  · intro hnone
    cases hnone
  · intro o ho row hrowMem hrowCovers hcut
    rw [← Option.some.inj ho]
    rcases hrows row hrowMem hrowCovers with rfl | ⟨hdestination, -⟩
    · rfl
    · exact hdestination hcut
  · intro o ho row hrowMem hrowCovers hplanned
    rw [← Option.some.inj ho]
    rcases hrows row hrowMem hrowCovers with rfl | ⟨-, hsource⟩
    · cases hplanned
    · exact hsource hplanned
  · -- the row that was just cut over is a cut row of the key
    intro o _ huncut
    exact absurd (Or.inl rfl) (huncut _ hin hcovers)
  · intro _
    refine ⟨_, hin, hcovers, ?_⟩
    intro hrolled
    cases hrolled

/-- A cutover of another key's migration, or of none, changes nothing for the key. -/
theorem Agreed.cutOver_elsewhere (h : Agreed key rows owner)
    (helse : ∀ migration, Table.lookup Migration.id id rows = some migration →
      ¬(covers migration key = true ∧ migration.state = .verify)) :
    Agreed key (rows.map (updated (Coordinator.movable id .cutOver) .cutover checkpoint now))
      owner := by
  refine h.update (fun migration hmem hcovers hmovable => ?_) (h.live_updated nofun)
  obtain ⟨hid, hstate⟩ := state_mem_of_movable hmovable
  refine absurd ⟨hcovers, ?_⟩ (helse migration
    ((Table.lookup_eq_some_iff h.nodup).mpr ⟨hmem, hid⟩))
  simpa [Transition.sources] using hstate

/-- The state changes other than the cutover. -/
theorem Agreed.change (h : Agreed key rows owner) (htransition : transition ≠ .cutOver)
    (hlive : owner ≠ none → ∃ migration ∈ rows, covers migration key = true ∧
      (updated (Coordinator.movable id transition) transition.target checkpoint now
        migration).state ≠ .rolledBack) :
    Agreed key (rows.map (updated (Coordinator.movable id transition) transition.target checkpoint
      now)) owner :=
  h.update (fun _ _ _ hmovable =>
    Transition.keeps_cut htransition (state_mem_of_movable hmovable).2) hlive

/-- An orderly rollback leaves a migration of the key. -/
theorem History.IsAgreed.live_of_orderly (h : history.IsAgreed key)
    (hguard : history.orderly key (.change id .rollback checkpoint now) = true)
    (hsome : history.owner ≠ none) :
    ∃ migration ∈ history.coordinator.migrations, covers migration key = true ∧
      (updated (Coordinator.movable id .rollback) .rolledBack checkpoint now
        migration).state ≠ .rolledBack := by
  by_cases hhit : ∃ migration ∈ history.coordinator.migrations, covers migration key = true ∧
      Coordinator.movable id .rollback migration = true
  · obtain ⟨migration, hmem, hcovers, hmovable⟩ := hhit
    obtain ⟨hid, hstate⟩ := state_mem_of_movable hmovable
    have hrow : history.coordinator.get id = some migration :=
      (Table.lookup_eq_some_iff h.nodup).mpr ⟨hmem, hid⟩
    simp only [History.orderly, hrow, hcovers, hstate, Bool.true_and, decide_true, Bool.not_true,
      Bool.false_or, List.any_eq_true, Bool.and_eq_true, decide_eq_true_eq] at hguard
    obtain ⟨other, hother, ⟨hne, hcoversOther⟩, hliveOther⟩ := hguard
    refine ⟨other, hother, hcoversOther, ?_⟩
    rw [updated_of_id_ne hne]
    exact hliveOther
  · obtain ⟨migration, hmem, hcovers, hlive⟩ := h.live hsome
    refine ⟨migration, hmem, hcovers, ?_⟩
    rw [updated, if_neg fun hmovable => hhit ⟨migration, hmem, hcovers, hmovable⟩]
    exact hlive

/-- Every orderly event keeps the agreement. -/
theorem History.IsAgreed.step {event : Event} (h : history.IsAgreed key)
    (hguard : history.orderly key event = true) :
    (history.step key event).IsAgreed key := by
  cases event with
  | register id =>
      have hsame : (history.coordinator.register id).1.migrations =
          history.coordinator.migrations := by
        unfold Coordinator.register
        split
        · rfl
        split <;> rfl
      show Agreed key (history.coordinator.register id).1.migrations history.owner
      rw [hsame]
      exact h
  | create migration now =>
      rcases create_cases history.coordinator migration now with ⟨err, hcreate⟩ | ⟨hnew, hcreate⟩
      · simp only [History.step, History.ownerAfter, hcreate]
        exact h
      · simp only [History.step, History.ownerAfter, hcreate]
        refine h.concat hnew rfl fun o ho hcovers => ?_
        have hcoversNew : covers migration key = true := hcovers
        show migration.source = o
        simpa [History.orderly, hcoversNew, ho] using hguard
  | saveCheckpoint id checkpoint now =>
      refine h.update (fun migration _ _ htest => ?_) (h.live_updated nofun)
      have hstate : migration.state = .backfill := by
        simp only [decide_eq_true_eq] at htest
        exact htest.2
      rw [hstate]
      decide
  | change id transition checkpoint now =>
      by_cases htransition : transition = .cutOver
      · subst htransition
        simp only [History.step, History.ownerAfter]
        cases hrow : history.coordinator.get id with
        | none =>
            refine h.cutOver_elsewhere fun migration hsome => ?_
            cases hrow.symm.trans hsome
        | some migration =>
            by_cases hhit : covers migration key = true ∧ migration.state = .verify
            · simp only [hhit, and_self, if_true]
              refine h.cutOver hrow hhit.1 hhit.2 ?_
              simpa [History.orderly, hrow, hhit] using hguard
            · simp only [hhit, if_false]
              refine h.cutOver_elsewhere fun other hother => ?_
              obtain rfl : migration = other := Option.some.inj (hrow.symm.trans hother)
              exact hhit
      · have howner : history.ownerAfter key (.change id transition checkpoint now) =
            history.owner := by
          cases transition <;> first | rfl | exact absurd rfl htransition
        simp only [History.step, howner]
        refine h.change htransition fun hsome => ?_
        by_cases hrollback : transition = .rollback
        · subst hrollback
          exact h.live_of_orderly hguard hsome
        · refine h.live_updated ?_ hsome
          cases transition <;> first | exact absurd rfl hrollback | nofun

/-- **`TargetsForWrite` names the owner** along every orderly history. -/
theorem namesOwner_of_orderly (key : Bytes) {backends : List Bytes} {events : List Event}
    (halong : Execution.Along (History.step key)
      (fun history event => history.orderly key event = true)
      { coordinator := { backends := backends } } events) :
    (Execution.run (History.step key) { coordinator := { backends := backends } }
      events).NamesOwner key := by
  have hinit : Agreed key [] none := by
    refine ⟨List.nodup_nil, ?_, nofun, nofun, nofun, fun hsome => absurd rfl hsome⟩
    exact fun _ migration hmem => nomatch hmem
  have hrun : (Execution.run (History.step key) { coordinator := { backends := backends } }
      events).IsAgreed key :=
    Execution.invariant_run (fun _ _ hinv hguard => hinv.step hguard) hinit halong
  exact hrun.namesOwner

/-! ## Several migrations -/

/-- What a statement does to the row of a migration. -/
def Migration.step (migration : Migration) : Event → Migration
  | .change id transition checkpoint now =>
      if id = migration.id then (migration.setState transition checkpoint now).1 else migration
  | .saveCheckpoint id checkpoint now =>
      if id = migration.id then migration.saveCheckpoint checkpoint now else migration
  | .register _ | .create _ _ => migration

theorem get_step (key : Bytes) {history : History} {id : Bytes} {migration : Migration}
    (event : Event) (hrow : history.coordinator.get id = some migration) :
    (history.step key event).coordinator.get id = some (migration.step event) := by
  obtain ⟨hmem, rfl⟩ := Table.mem_of_lookup hrow
  change Table.lookup _ _ _ = _ at hrow
  cases event with
  | register other =>
      simp only [History.step, Coordinator.register]
      split_ifs <;> exact hrow
  | create other now =>
      rcases create_cases history.coordinator other now with ⟨err, hcreate⟩ | ⟨hfresh, hcreate⟩
      · simp only [History.step, hcreate]
        exact hrow
      · have hother : (other.moved .planned [] now).id ≠ migration.id := (hfresh migration hmem).symm
        simp only [History.step, hcreate]
        refine (Table.lookup_concat ?_ _).trans ((if_neg hother).trans hrow)
        exact hfresh
  | change other transition checkpoint now =>
      refine (Table.lookup_update (fun _ => by rfl) _).trans ?_
      rw [hrow, Migration.step, Migration.setState]
      by_cases hother : other = migration.id
      · by_cases hstate : migration.state ∈ transition.sources <;>
          simp [Coordinator.movable, hother, hstate]
      · simp [Coordinator.movable, hother, Ne.symm hother]
  | saveCheckpoint other checkpoint now =>
      refine (Table.lookup_update (fun _ => by rfl) _).trans ?_
      rw [hrow]
      by_cases hother : other = migration.id
      · simp [Migration.step, Migration.saveCheckpoint, hother]
      · simp [Migration.step, hother, Ne.symm hother]

theorem Migration.isCut_step {migration : Migration} (h : migration.state.IsCut) (event : Event) :
    (migration.step event).state.IsCut := by
  cases event with
  | register other => exact h
  | create other now => exact h
  | change other transition checkpoint now =>
      simp only [step, setState]
      split_ifs with hother hstate
      · show transition.target.IsCut
        revert h hstate
        cases transition <;> cases migration.state <;> decide
      · exact h
      · exact h
  | saveCheckpoint other checkpoint now =>
      simp only [step]
      split_ifs
      · rwa [state_saveCheckpoint]
      · exact h

/-- **Isolation.** In every order of the statements of all migrations, the row of one is what its
own ones make of it, and it stays cut once it is. -/
theorem isolated_run (key : Bytes) {history : History} {id : Bytes} {migration : Migration}
    (hrow : history.coordinator.get id = some migration) (events : List Event) :
    (Execution.run (History.step key) history events).coordinator.get id =
        some (Execution.run Migration.step migration events) ∧
      (migration.state.IsCut → (Execution.run Migration.step migration events).state.IsCut) := by
  induction events generalizing history migration with
  | nil => exact ⟨hrow, fun hcut => hcut⟩
  | cons event rest ih =>
      obtain ⟨hget, hkeeps⟩ := ih (get_step key event hrow)
      exact ⟨hget, fun hcut => hkeeps (Migration.isCut_step hcut event)⟩

/-! ## A key that moves -/

/-- A migration of the range from `k` to `l`. -/
def moveBetween (id source destination : String) : Migration :=
  { id := ascii id, source := ascii source, destination := ascii destination
    rangeStart := ascii "k", rangeEnd := ascii "l" }

/-- `Create` and the state changes up to `complete`. -/
def driven (migration : Migration) : List Event :=
  .create migration 0 ::
    [Transition.enableDualWrite, .beginBackfill, .finishBackfill, .cutOver, .complete].map
      fun transition => .change migration.id transition [] 0

/-- The history of the key `k1` over three backends. -/
def historyOf (events : List Event) : History :=
  Execution.run (History.step (ascii "k1"))
    { coordinator := { backends := [ascii "a", ascii "b", ascii "c"] } } events

/-- One migration is complete, the next one is rolled back. -/
def abandonedMove : List Event :=
  driven (moveBetween "m1" "a" "b") ++
    [.create (moveBetween "m2" "b" "c") 0, .change (ascii "m2") .enableDualWrite [] 0,
      .change (ascii "m2") .rollback [] 0]

theorem namesOwner_abandonedMove :
    (historyOf abandonedMove).owner = some (ascii "b") ∧
      (historyOf abandonedMove).NamesOwner (ascii "k1") :=
  ⟨by decide +kernel, namesOwner_of_orderly (ascii "k1") (by decide +kernel)⟩

/-- **The owner is forgotten** when the only migration is rolled back, and **an old
owner is still named** after a second migration. -/
theorem not_namesOwner_rolledBack_or_chained :
    ¬(historyOf [.create (moveBetween "m1" "a" "b") 0,
        .change (ascii "m1") .rollback [] 0]).NamesOwner (ascii "k1") ∧
      ¬(historyOf (driven (moveBetween "m1" "a" "b") ++
        driven (moveBetween "m2" "b" "c"))).NamesOwner (ascii "k1") := by
  constructor
  · intro h
    exact absurd (h (ascii "a") (by decide +kernel)).1 (by decide +kernel)
  · intro h
    have honly := (h (ascii "c") (by decide +kernel)).2 (by decide +kernel) (ascii "b")
      (by decide +kernel)
    exact absurd honly (by decide +kernel)

/-- A second migration leaves the row of the first one. -/
theorem isolated_run_secondMove :
    (Execution.run (History.step (ascii "k1")) (historyOf (driven (moveBetween "m1" "a" "b")))
        (driven (moveBetween "m2" "b" "c"))).coordinator.get (ascii "m1") =
      some { moveBetween "m1" "a" "b" with state := .complete } := by
  have hrow : (historyOf (driven (moveBetween "m1" "a" "b"))).coordinator.get (ascii "m1") =
      some { moveBetween "m1" "a" "b" with state := .complete } := by decide +kernel
  exact (isolated_run (ascii "k1") hrow (driven (moveBetween "m2" "b" "c"))).1.trans
    (by decide +kernel)

end Ubiq.Shard
