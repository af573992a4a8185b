import Ubiq.Shard.System

/-!
# Backfill against dual writes

Clients put and delete documents in the source and then in the destination while
`BackfillStep` copies the range. When everything has come to rest in the state
`verify`, the two ranges should be equal.

A batch can be exported before a client's write and imported after it. SQL then
brings back a document that the client has deleted; Mongo replaces the document that
the client has put. The ranges are equal if every document that `Import` writes is
still the document of the source, or a client is about to write its key anyway, and
if clients do not overlap on a key.

The invariant is about two kinds of bad keys: a *gap* is in the source only, a
*foreign* key has a document in the destination that the source does not have. No
step makes a key bad; the checkpoint and the calls in flight say where gaps can
still be.
-/

namespace Ubiq.Shard

open Foundation

variable {δ : Type} {world : World δ} {flying : Bytes → Bool} {setup : Setup δ}

/-- A client's write of the key is between the two stores. -/
def Task.forwards (key : Bytes) : Task δ → Bool
  | .forward other _ => other = key
  | _ => false

/-- Some client's write of the key is between the two stores. -/
def inFlight (pool : Pool δ) (key : Bytes) : Bool :=
  pool.tasks.any (Task.forwards key)

/-- Backfill steps, and clients that write to both stores during `dual_write` and
`backfill`. A client's write arrives at both stores. -/
def dualWrites (pool : Pool δ) : Action δ → Bool
  | .spawn .enableDualWrite | .spawn .beginBackfill | .spawn (.backfillStep _) => true
  | .spawn (.write _ _) =>
      pool.store.migration.state = .dualWrite ∨ pool.store.migration.state = .backfill
  | .spawn _ => false
  | .advance index choice =>
      match pool.tasks[index]? with
      | some (.write _ _) | some (.forward _ _) => choice.outcome = .done
      | _ => true

/-- Importing the document does no harm: it is not written, it is what the source has,
or a client's write of the key will replace it. -/
def isCurrent [DecidableEq δ] (setup : Setup δ) (pool : Pool δ) (document : ShardDocument) :
    Bool :=
  match setup.destination.decode document.data with
  | none => true
  | some (key, value) =>
      !setup.destination.overwrites pool.store.destination key ||
        decide (pool.store.source.lookup key = some value) || inFlight pool key

/-- Clients do not overlap on a key, and imports do no harm. -/
def undisturbed [DecidableEq δ] (setup : Setup δ) (pool : Pool δ) : Action δ → Bool
  | .spawn _ => true
  | .advance index _ =>
      match pool.tasks[index]? with
      | some (.write key _) => !inFlight pool key
      | some (.importing documents _ _) =>
          (portion setup.destination.engine documents).1.all (isCurrent setup pool)
      | _ => true

/-- Every schedule that comes to rest in the state `verify` leaves equal ranges. -/
def Converges (setup : Setup δ) (world : World δ) (guard : Pool δ → Action δ → Bool) : Prop :=
  ∀ schedule, Execution.Along (step setup)
      (fun pool action => dualWrites pool action = true ∧ guard pool action = true)
      ⟨world, []⟩ schedule →
    (Execution.run (step setup) ⟨world, []⟩ schedule).tasks = [] →
    (Execution.run (step setup) ⟨world, []⟩ schedule).store.migration.state = .verify →
    SameRange (Execution.run (step setup) ⟨world, []⟩ schedule).store

/-! ## Bad keys -/

/-- A key that is in the source only; `flying` are the keys that clients write. -/
structure Gap (world : World δ) (flying : Bytes → Bool) (key : Bytes) : Prop where
  covers : world.covers key = true
  still : flying key = false
  source : world.source.lookup key ≠ none
  destination : world.destination.lookup key = none

/-- A key with a document in the destination that the source does not have. -/
structure Foreign (world : World δ) (flying : Bytes → Bool) (key : Bytes) : Prop where
  covers : world.covers key = true
  still : flying key = false
  differs : ∃ value, world.destination.lookup key = some value ∧
    world.source.lookup key ≠ some value

theorem sameRange_of_no_bad_key (hstill : ∀ key, flying key = false)
    (hgap : ∀ key, ¬Gap world flying key) (hforeign : ∀ key, ¬Foreign world flying key) :
    SameRange world := by
  intro key hkey
  cases hdestination : world.destination.lookup key with
  | none =>
      by_contra hsource
      exact hgap key ⟨hkey, hstill key, Ne.symm hsource, hdestination⟩
  | some value =>
      by_contra hsource
      exact hforeign key ⟨hkey, hstill key, value, hdestination, Ne.symm hsource⟩

/-- The keys that a checkpoint has passed; all of them when the backfill is done. -/
def upTo (next : Bytes) (done : Bool) (key : Bytes) : Prop :=
  done = true ∨ next ≠ [] ∧ key ≤ next

theorem not_upTo_start (key : Bytes) : ¬upTo [] false key := by
  simp [upTo]

/-- What a call in flight has done: where gaps cannot be, and for a batch in flight, its
documents fill the gaps. -/
def Owes (setup : Setup δ) (world : World δ) (flying : Bytes → Bool) : Task δ → Prop
  | .enableDualWrite | .beginBackfill | .backfillStep _ | .write _ _ => True
  | .exporting _ checkpoint => ∀ key, Gap world flying key → ¬upTo checkpoint false key
  | .importing documents next done => ∀ key, Gap world flying key → upTo next done key →
      ∃ document ∈ documents, ∃ value, setup.destination.decode document.data = some (key, value)
  | .saving next done => ∀ key, Gap world flying key → ¬upTo next done key
  | .forward key value => world.source.lookup key = value
  | _ => False

/-- What the row of the migration says about gaps. -/
structure Recorded (world : World δ) (flying : Bytes → Bool) : Prop where
  backfill : world.migration.state = .backfill →
    ∀ key, Gap world flying key → ¬upTo world.migration.checkpoint false key
  verify : world.migration.state = .verify → ∀ key, ¬Gap world flying key

/-- The stores converge. -/
structure Converging (setup : Setup δ) (pool : Pool δ) : Prop where
  foreign : ∀ key, ¬Foreign pool.store (inFlight pool) key
  recorded : Recorded pool.store (inFlight pool)
  tasks : ∀ task ∈ pool.tasks, Owes setup pool.store (inFlight pool) task

/-! ## Effects -/

theorem lookup_applyWrite (rows : Rows δ) (key : Bytes) (value : Option δ) (other : Bytes) :
    (applyWrite rows key value).lookup other = if other = key then value else rows.lookup other := by
  cases value with
  | some document =>
      show (rows.put key document).lookup other = _
      convert SortedTable.lookup_put rows key document other
  | none =>
      rw [applyWrite, SortedTable.lookup_restrict]
      by_cases hkey : other = key <;> simp [hkey]

/-- How the keys in flight change when a call performs its next operation. -/
def Settles (flying later : Bytes → Bool) : Task δ → Prop
  | .write key _ => ∀ k, later k = false → flying k = false ∧ k ≠ key
  | .forward key _ => ∀ k, later k = false → k = key ∨ flying k = false
  | _ => ∀ k, later k = false → flying k = false

variable {later : Bytes → Bool} {task : Task δ} {key : Bytes} {next : World δ} {now : Int}
  {progress : Progress δ} {pool : Pool δ} {index : Nat} {choice : Choice}

theorem Settles.of_not_client (h : Settles flying later task) (htask : task.isClient = false)
    (hkey : later key = false) : flying key = false := by
  cases task with
  | write k value => cases htask
  | forward k value => cases htask
  | _ => exact h key hkey

/-- What a step does to a key that no client writes afterwards: a client has just brought it to
both stores, or it was at rest before, its source is unchanged and only an import can have changed
its destination. -/
theorem rest_of_effect (heffect : Effect setup world now task next progress)
    (howes : Owes setup world flying task) (hsettles : Settles flying later task)
    (hstill : later key = false) :
    next.destination.lookup key = next.source.lookup key ∨
      flying key = false ∧ next.source.lookup key = world.source.lookup key ∧
        (next.destination.lookup key = world.destination.lookup key ∨
          ∃ documents checkpoint done, task = .importing documents checkpoint done ∧
            setup.destination.importAll world.destination
              (portion setup.destination.engine documents).1 = some next.destination) := by
  cases heffect with
  | refused err htask => exact Or.inr ⟨hsettles.of_not_client htask hstill, rfl, Or.inl rfl⟩
  | moved htask hstate =>
      exact Or.inr ⟨hsettles.of_not_client (Task.isClient_of_transition? htask) hstill, rfl,
        Or.inl rfl⟩
  | imported hrows => exact Or.inr ⟨hsettles key hstill, rfl, Or.inr ⟨_, _, _, rfl, hrows⟩⟩
  | written k value =>
      obtain ⟨hflying, hne⟩ := hsettles key hstill
      exact Or.inr ⟨hflying, by rw [lookup_applyWrite, if_neg hne], Or.inl rfl⟩
  | forwarded k value =>
      have hvalue : world.source.lookup k = value := howes
      rw [lookup_applyWrite]
      split
      · next hkey => exact Or.inl (hkey ▸ hvalue.symm)
      · next hne => exact Or.inr ⟨(hsettles key hstill).resolve_left hne, rfl, Or.inl rfl⟩
  | deletedSource checkpoint => exact absurd howes id
  | deletedDestination checkpoint => exact absurd howes id
  | _ => exact Or.inr ⟨hsettles key hstill, rfl, Or.inl rfl⟩

/-- **No step opens a gap.** -/
theorem Gap.of_effect (heffect : Effect setup world now task next progress)
    (howes : Owes setup world flying task) (hsettles : Settles flying later task)
    (h : Gap next later key) : Gap world flying key := by
  have hcovers : world.covers key = true := heffect.covers ▸ h.covers
  rcases rest_of_effect heffect howes hsettles h.still with hboth | ⟨hflying, hsource, hrows⟩
  · exact absurd (hboth.symm.trans h.destination) h.source
  · refine ⟨hcovers, hflying, hsource ▸ h.source, ?_⟩
    rcases hrows with hsame | ⟨documents, checkpoint, done, -, himport⟩
    · exact hsame ▸ h.destination
    · exact lookup_eq_none_of_importAll himport h.destination

/-- Every document that an import writes is current. -/
def ImportsCurrent (setup : Setup δ) (world : World δ) (flying : Bytes → Bool) : Task δ → Prop
  | .importing documents _ _ => ∀ document ∈ (portion setup.destination.engine documents).1,
      ∀ key value, setup.destination.decode document.data = some (key, value) →
        setup.destination.overwrites world.destination key = true →
        world.source.lookup key = some value ∨ flying key = true
  | _ => True

/-- **No step makes a key foreign.** -/
theorem Foreign.of_effect (heffect : Effect setup world now task next progress)
    (howes : Owes setup world flying task) (hsettles : Settles flying later task)
    (hcurrent : ImportsCurrent setup world flying task) (h : Foreign next later key) :
    Foreign world flying key := by
  have hcovers : world.covers key = true := heffect.covers ▸ h.covers
  obtain ⟨value, hdestination, hdiffers⟩ := h.differs
  rcases rest_of_effect heffect howes hsettles h.still with hboth | ⟨hflying, hsource, hrows⟩
  · exact absurd (hboth.symm.trans hdestination) hdiffers
  · rw [hsource] at hdiffers
    refine ⟨hcovers, hflying, value, ?_, hdiffers⟩
    rcases hrows with hsame | ⟨documents, checkpoint, done, rfl, himport⟩
    · exact hsame ▸ hdestination
    · -- the foreign document was there before, or the import has written it
      rcases lookup_importAll_cases himport hdestination with
        hold | ⟨document, hmem, hdecode, hover⟩
      · exact hold
      · rcases hcurrent document hmem key value hdecode hover with hsame | hflies
        · exact absurd hsame hdiffers
        · rw [hflying] at hflies
          cases hflies

/-! ## Where gaps can be -/

theorem mem_portion {engine : Engine} {documents : List ShardDocument} {document : ShardDocument}
    (h : document ∈ documents) :
    document ∈ (portion engine documents).1 ∨ document ∈ (portion engine documents).2 := by
  cases engine with
  | sql => exact Or.inl h
  | mongo =>
      rw [← List.take_append_drop 1 documents] at h
      exact List.mem_append.mp h

theorem owes_importRest {documents : List ShardDocument} {next : Bytes} {done : Bool}
    (h : ∀ key, Gap world flying key → upTo next done key → ∃ document ∈ documents,
      ∃ value, setup.destination.decode document.data = some (key, value)) :
    Owes setup world flying (importRest documents next done) := by
  unfold importRest
  split
  · next hempty =>
      intro key hgap hupTo
      obtain ⟨document, hmem, -⟩ := h key hgap hupTo
      rw [hempty] at hmem
      cases hmem
  · exact h

/-- An export fills the gaps behind its checkpoint, as far as it says. -/
theorem document_of_gap {checkpoint : Bytes} {batch : ShardBatch}
    (hsurvives : ∀ key value, world.covers key = true → world.source.lookup key = some value →
      Survives setup.source setup.destination key value)
    (howes : ∀ key, Gap world flying key → ¬upTo checkpoint false key)
    (hbatch : Exported setup.source world.source world.migration.rangeStart
      world.migration.rangeEnd checkpoint batch) (hgap : Gap world flying key)
    (hupTo : upTo batch.next batch.done key) :
    ∃ document ∈ batch.documents, ∃ value,
      setup.destination.decode document.data = some (key, value) := by
  obtain ⟨value, hvalue⟩ := Option.ne_none_iff_exists'.mp hgap.source
  -- gaps lie behind the checkpoint, so the export has looked at this key
  have hbehind : checkpoint = [] ∨ checkpoint < key := by
    have hnot := howes key hgap
    by_cases hempty : checkpoint = []
    · exact Or.inl hempty
    · exact Or.inr (lt_of_not_ge fun hle => hnot (Or.inr ⟨hempty, hle⟩))
  have hpass : exportable world.migration.rangeStart world.migration.rangeEnd checkpoint key =
      true := by
    simpa [exportable] using ⟨hgap.covers, hbehind⟩
  obtain ⟨data, hmem, hencode⟩ := hbatch.complete key value hpass hvalue hupTo
  exact ⟨⟨key, data⟩, hmem, value, hsurvives key value hgap.covers hvalue data hencode⟩

/-- What the rest of a call has done. -/
theorem owes_rest {rest : Task δ}
    (hsurvives : ∀ key value, world.covers key = true → world.source.lookup key = some value →
      Survives setup.source setup.destination key value)
    (heffect : Effect setup world now task next progress) (hrecorded : Recorded world flying)
    (howes : Owes setup world flying task) (hgap : ∀ key, Gap next later key → Gap world flying key)
    (hrest : progress.task? = some rest) : Owes setup next later rest := by
  cases heffect with
  | backfilling limit hstate =>
      cases hrest
      exact fun key hkey => hrecorded.backfill hstate key (hgap key hkey)
  | exported hbatch =>
      cases hrest
      exact owes_importRest fun key hkey hupTo =>
        document_of_gap hsurvives howes hbatch (hgap key hkey) hupTo
  | imported hrows =>
      cases hrest
      refine owes_importRest fun key hkey hupTo => ?_
      obtain ⟨document, hmem, value, hdecode⟩ := howes key (hgap key hkey) hupTo
      -- a document of the portion has closed its gap, the others are still to come
      rcases mem_portion hmem with hfirst | hsecond
      · exact absurd hkey.destination (lookup_importAll_ne_none hrows hfirst hdecode)
      · exact ⟨document, hsecond, value, hdecode⟩
  | written key value =>
      cases hrest
      show (applyWrite world.source key value).lookup key = value
      rw [lookup_applyWrite, if_pos rfl]
  | refused => cases hrest
  | moved => cases hrest
  | saved => cases hrest
  | forwarded => cases hrest
  | _ => exact absurd howes id

/-- What the other calls have done. -/
theorem owes_other {other : Task δ} (heffect : Effect setup world now task next progress)
    (hgap : ∀ key, Gap next later key → Gap world flying key) (howes : Owes setup world flying task)
    (hoverlap : ∀ key first second, task = .write key first → other ≠ .forward key second)
    (hother : Owes setup world flying other) : Owes setup next later other := by
  cases other with
  | exporting limit checkpoint => exact fun key hkey => hother key (hgap key hkey)
  | importing documents text done => exact fun key hkey => hother key (hgap key hkey)
  | saving text done => exact fun key hkey => hother key (hgap key hkey)
  | forward key value =>
      cases heffect with
      | written k first =>
          show (applyWrite world.source k first).lookup key = value
          rw [lookup_applyWrite, if_neg]
          · exact hother
          · rintro rfl
            exact hoverlap _ first value rfl rfl
      | deletedSource checkpoint => exact absurd howes id
      | _ => exact hother
  | _ => exact hother

/-- What the row says stays true. -/
theorem Recorded.effect (h : Recorded world flying)
    (heffect : Effect setup world now task next progress) (howes : Owes setup world flying task)
    (hgap : ∀ key, Gap next later key → Gap world flying key) : Recorded next later := by
  have hsame : next.migration = world.migration → Recorded next later := by
    intro heq
    constructor
    · rw [heq]
      exact fun hstate key hkey => h.backfill hstate key (hgap key hkey)
    · rw [heq]
      exact fun hstate key hkey => h.verify hstate key (hgap key hkey)
  cases heffect with
  | moved htask hstate =>
      cases task with
      | enableDualWrite =>
          cases htask
          exact ⟨nofun, nofun⟩
      | beginBackfill =>
          cases htask
          exact ⟨fun _ key _ => not_upTo_start key, nofun⟩
      | saving text done =>
          cases done with
          | false => cases htask
          | true =>
              cases htask
              -- a backfill that is done has passed every key
              exact ⟨nofun, fun _ key hkey => howes key (hgap key hkey) (Or.inl rfl)⟩
      | _ => first | exact absurd howes id | cases htask
  | saved text =>
      by_cases hstate : world.migration.state = .backfill
      · constructor
        · intro _ key hkey
          simp only [Migration.saveCheckpoint, hstate, if_true]
          exact howes key (hgap key hkey)
        · intro hverify
          simp [Migration.saveCheckpoint, hstate, Migration.moved] at hverify
      · exact hsame (if_neg hstate)
  | _ => exact hsame rfl

/-! ## Steps of the pool -/

/-- How the keys in flight change with the pool. -/
theorem settles_replace {rest : Option (Task δ)} (hindex : pool.tasks[index]? = some task)
    (hwrite : ∀ key value, task = .write key value → rest = some (.forward key value))
    (next : World δ) :
    Settles (inFlight pool) (inFlight ⟨next, Interleaving.replace pool.tasks index rest⟩) task := by
  have hlater : ∀ key, task.forwards key = false →
      inFlight ⟨next, Interleaving.replace pool.tasks index rest⟩ key =
        (inFlight pool key || rest.any (Task.forwards key)) := fun key htest =>
    Interleaving.any_replace hindex htest rest
  cases task with
  | write key value =>
      intro k hk
      rw [hlater k rfl, hwrite key value rfl] at hk
      simp only [Option.any_some, Task.forwards, Bool.or_eq_false_iff,
        decide_eq_false_iff_not] at hk
      exact ⟨hk.1, Ne.symm hk.2⟩
  | forward key value =>
      intro k hk
      by_cases hkey : k = key
      · exact Or.inl hkey
      · rw [hlater k (by simpa [Task.forwards] using Ne.symm hkey), Bool.or_eq_false_iff] at hk
        exact Or.inr hk.1
  | _ =>
      intro k hk
      rw [hlater k rfl, Bool.or_eq_false_iff] at hk
      exact hk.1

/-- A client's write arrives. -/
theorem outcome_of_dualWrites (hindex : pool.tasks[index]? = some task)
    (h : dualWrites pool (.advance index choice) = true) (hclient : task.isClient = true) :
    choice.outcome = .done := by
  cases task with
  | write key value => simpa [dualWrites, hindex] using h
  | forward key value => simpa [dualWrites, hindex] using h
  | _ => cases hclient

/-- A call that is about to be forwarded is in flight. -/
theorem inFlight_of_mem {value : Option δ} (h : .forward key value ∈ pool.tasks) :
    inFlight pool key = true :=
  List.any_eq_true.mpr ⟨_, h, by simp [Task.forwards]⟩

theorem Converging.spawn (h : Converging setup pool)
    (hdual : dualWrites pool (.spawn task) = true) :
    Converging setup (step setup pool (.spawn task)) := by
  have hnew : ∀ key, task.forwards key = false := by
    intro key
    cases task <;> first | rfl | cases hdual
  have hflying : inFlight (step setup pool (.spawn task)) = inFlight pool := by
    funext key
    simp [inFlight, step, Interleaving.step, hnew key]
  refine ⟨?_, ?_, ?_⟩
  · rw [hflying]
    exact h.foreign
  · rw [hflying]
    exact h.recorded
  · rw [hflying]
    refine List.forall_mem_append.mpr ⟨h.tasks, List.forall_mem_singleton.mpr ?_⟩
    cases task <;> trivial

variable [DecidableEq δ]

theorem importsCurrent_of_undisturbed (hindex : pool.tasks[index]? = some task)
    (h : undisturbed setup pool (.advance index choice) = true) :
    ImportsCurrent setup pool.store (inFlight pool) task := by
  cases task with
  | importing documents text done =>
      intro document hmem key value hdecode hover
      simp only [undisturbed, hindex, List.all_eq_true] at h
      have hcurrent := h document hmem
      simpa [isCurrent, hdecode, hover] using hcurrent
  | _ => trivial

theorem Converging.advance
    (hsurvives : ∀ key value, Survives setup.source setup.destination key value)
    (h : Converging setup pool) (hdual : dualWrites pool (.advance index choice) = true)
    (hguard : undisturbed setup pool (.advance index choice) = true) :
    Converging setup (step setup pool (.advance index choice)) := by
  unfold step
  cases hindex : pool.tasks[index]? with
  | none =>
      rw [Interleaving.step_advance_none hindex]
      exact h
  | some task =>
      rw [Interleaving.step_advance_some hindex]
      have howes : Owes setup pool.store (inFlight pool) task :=
        h.tasks task (List.mem_of_getElem? hindex)
      obtain ⟨progress, heffect, hrest⟩ :=
        perform_effect setup pool.store (outcome_of_dualWrites hindex hdual)
      revert heffect hrest
      generalize (perform setup pool.store task choice).1 = next
      generalize (perform setup pool.store task choice).2 = rest
      intro heffect hrest
      -- a client that has written to the source does go on to the destination
      have hwrite : ∀ key value, task = .write key value → rest = some (.forward key value) := by
        rintro key value rfl
        rcases hrest with rfl | ⟨-, hnot⟩
        · cases heffect with
          | refused err htask => cases htask
          | moved htask => cases htask
          | written => rfl
        · cases hnot
      have hsettles := settles_replace hindex hwrite next
      have hgap : ∀ key, Gap next (inFlight ⟨next, Interleaving.replace pool.tasks index rest⟩) key →
          Gap pool.store (inFlight pool) key := fun key hkey =>
        hkey.of_effect heffect howes hsettles
      refine ⟨fun key hkey => h.foreign key (hkey.of_effect heffect howes hsettles
        (importsCurrent_of_undisturbed hindex hguard)), h.recorded.effect heffect howes hgap, ?_⟩
      intro other hother
      rcases Interleaving.mem_replace hother with hlater | hold
      · rcases hrest with rfl | ⟨rfl, -⟩
        · exact owes_rest (fun key value _ _ => hsurvives key value) heffect h.recorded howes hgap
            hlater
        · cases hlater
      · refine owes_other heffect hgap howes ?_ (h.tasks other hold)
        rintro key first second rfl rfl
        simp [undisturbed, hindex, inFlight_of_mem hold] at hguard

/-- **The ranges converge** when clients do not overlap on a key and every imported
document is current. -/
theorem converges_of_undisturbed {setup : Setup δ} {world : World δ}
    (hplanned : world.migration.state = .planned)
    (hinitial : Within world.covers world.destination world.source)
    (hsurvives : ∀ key value, Survives setup.source setup.destination key value) :
    Converges setup world (undisturbed setup) := by
  intro schedule halong hrest hverify
  have hinit : Converging setup ⟨world, []⟩ := by
    refine ⟨?_, ⟨?_, ?_⟩, fun task hmem => nomatch hmem⟩
    · rintro key ⟨hkey, -, value, hdestination, hsource⟩
      exact hsource (hinitial key value hkey hdestination)
    · simp [hplanned]
    · simp [hplanned]
  have hrun : Converging setup (Execution.run (step setup) ⟨world, []⟩ schedule) := by
    refine Execution.invariant_run (fun pool action hpool hguard => ?_) hinit halong
    cases action with
    | spawn task => exact hpool.spawn hguard.1
    | advance index choice => exact hpool.advance hsurvives hguard.1 hguard.2
  refine sameRange_of_no_bad_key ?_ (hrun.recorded.verify hverify) hrun.foreign
  intro key
  simp [inFlight, hrest]

/-! ## A client between export and import -/

/-- A batch is exported, a client writes the first key, and the batch is imported. -/
def overtakenBatch (value : Option Bytes) (operations : Nat) : List (Action Bytes) :=
  callAlone .enableDualWrite 1 ++ callAlone .beginBackfill 1 ++ callAlone (.backfillStep 500) 2 ++
    [.spawn (.write (ascii "k1") value), .advance 1 ⟨0, .done⟩, .advance 1 ⟨0, .done⟩] ++
    List.replicate operations (.advance 0 ⟨0, .done⟩)

/-- SQL keeps the document that a client has put. -/
theorem converges_overtakenPut :
    SameRange (Execution.run (step textTables) ⟨plannedMove, []⟩
      (overtakenBatch (some (ascii "new")) 2)).store :=
  converges_of_undisturbed rfl (.of_empty fun _ _ => rfl) (survives_textTable _ _)
    (overtakenBatch (some (ascii "new")) 2) (by decide +kernel) (by decide +kernel)
    (by decide +kernel)

/-- **The backfill wins.** SQL brings back what a client has deleted, Mongo what a
client has replaced. -/
theorem not_converges_overtakenBatch :
    ¬Converges ⟨textTable .sql, textTable .sql⟩ plannedMove (fun _ _ => true) ∧
      ¬Converges ⟨textTable .mongo, textTable .mongo⟩ plannedMove (fun _ _ => true) := by
  constructor
  · intro h
    have hsame := h (overtakenBatch none 2) (by decide +kernel) (by decide +kernel)
      (by decide +kernel) (ascii "k1") (by decide +kernel)
    exact absurd hsame (by decide +kernel)
  · intro h
    have hsame := h (overtakenBatch (some (ascii "new")) 3) (by decide +kernel)
      (by decide +kernel) (by decide +kernel) (ascii "k1") (by decide +kernel)
    exact absurd hsame (by decide +kernel)

end Ubiq.Shard
