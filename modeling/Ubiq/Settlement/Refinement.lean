import Ubiq.Settlement.System
import Ubiq.Settlement.RecordJson

/-!
# The live projection refines the journal

The abstract state of the settlement system is the list of records in the
journal. `Refines` relates it to the two concrete representations: the bytes on
disk decode to the list, and the index in memory is the one a fresh projection
makes of it. A successful `persist` appends to the list; a recovery establishes
the relation from the file alone.

* `Refines.stored` and `refines_of_finished` are these two steps.
* `Faithful` is what every call of the process preserves, failures included.
-/

namespace Ubiq.Settlement

open Foundation

/-- The journal holds `records`, and the coordinator is what a fresh one would be
after applying them in order. -/
structure Refines (store : Store) (disk : Disk) (coordinator : Coordinator)
    (records : List Record) : Prop where
  journal : store.records disk = .ok records
  projection : Projection.init.applyAll records = .ok coordinator.projection
  next : coordinator.nextSequence.toNat = coordinator.projection.lastSequence.toNat + 1

namespace Refines

variable {store : Store} {disk : Disk} {coordinator : Coordinator} {records : List Record}

/-- The journal's sequence numbers are strictly increasing. -/
theorem sequences (h : Refines store disk coordinator records) :
    records.Pairwise fun earlier later => earlier.sequence < later.sequence :=
  (Projection.applyAll_sequences h.projection).1

theorem wellFormed (h : Refines store disk coordinator records) :
    coordinator.projection.WellFormed :=
  Projection.wellFormed_init.applyAll h.projection

/-- A completed `persist` appends one record to the abstract journal. -/
theorem stored (h : Refines store disk coordinator records) {snapshot : Record} {after : Disk}
    {next : UInt64} (hclean : disk.Clean)
    (hvalid : coordinator.projection.validate (coordinator.stamp snapshot) = .ok ())
    (hadmits : store.admits disk (coordinator.stamp snapshot) = true)
    (hbytes : after.bytes = disk.bytes ++ store.line (coordinator.stamp snapshot))
    (hnext : addOne coordinator.nextSequence = some next) :
    after.Clean ∧ Refines store after
      { coordinator with
        projection := coordinator.projection.put (coordinator.stamp snapshot)
        nextSequence := next }
      (records ++ [coordinator.stamp snapshot]) := by
  obtain ⟨hjournal, hafter⟩ := records_append_line hclean h.journal hadmits hbytes
  refine ⟨hafter, hjournal, ?_, ?_⟩
  · rw [Projection.applyAll_append_singleton h.projection]
    exact Projection.apply_of_validate hvalid
  · rw [Projection.put_lastSequence]
    exact toNat_addOne hnext

end Refines

/-- A recovery that starts from the empty projection establishes the relation. -/
theorem refines_of_finished {store : Store} {disk : Disk} {coordinator : Coordinator}
    {projection : Projection} {records : List Record} {next : UInt64}
    (hinit : coordinator.projection = Projection.init)
    (hdecode : store.records disk = .ok records)
    (happly : coordinator.projection.applyAll records = .ok projection)
    (hnext : addOne projection.lastSequence = some next) :
    Refines store disk
      { coordinator with projection := projection, nextSequence := next, recovered := true }
      records where
  journal := hdecode
  projection := hinit ▸ happly
  next := toNat_addOne hnext

/-- Once the last sequence number is used up no record is accepted. -/
theorem applyAll_of_exhausted {projection final : Projection} {records : List Record}
    (hfull : addOne projection.lastSequence = none)
    (happly : projection.applyAll records = .ok final) : records = [] := by
  cases records with
  | nil => rfl
  | cons record rest =>
      have hlt := (Projection.applyAll_sequences happly).2 record List.mem_cons_self
      rw [addOne_eq_none_iff] at hfull
      have hbound := record.sequence.toNat_lt
      rw [UInt64.lt_iff_toNat_lt] at hlt
      omega

/-- What holds in every state of a process that started on a clean journal. A
recovery that finds the sequence numbers used up leaves its projection behind
without being recovered or poisoned; a second attempt must then fail. -/
structure Faithful (store : Store) (system : System) : Prop where
  clean : system.coordinator.poisoned = false → system.disk.Clean
  refines : system.coordinator.poisoned = false → system.coordinator.recovered = true →
    ∃ records, Refines store system.disk system.coordinator records
  waiting : system.coordinator.poisoned = false → system.coordinator.recovered = false →
    system.coordinator.projection = Projection.init ∨
      addOne system.coordinator.projection.lastSequence = none ∧
        store.records system.disk ≠ .ok []

namespace Faithful

variable {store : Store} {system : System}

/-- A fresh coordinator on a clean journal. -/
theorem fresh {disk : Disk} (hclean : disk.Clean) :
    Faithful store ⟨disk, Coordinator.init⟩ where
  clean _ := hclean
  refines _ hrecovered := by cases hrecovered
  waiting _ _ := Or.inl rfl

/-- A poisoned coordinator owes nothing. -/
theorem of_poisoned (h : system.coordinator.poisoned = true) : Faithful store system where
  clean hsound := by rw [h] at hsound; cases hsound
  refines hsound := by rw [h] at hsound; cases hsound
  waiting hsound := by rw [h] at hsound; cases hsound

theorem step_persist (h : Faithful store system) (snapshot : Record)
    (fault : Option PersistFault) :
    Faithful store (system.step store (.persist snapshot fault)) := by
  have heffect := Coordinator.persist_effect store system.disk system.coordinator snapshot fault
  simp only [System.step, System.exec]
  generalize Coordinator.persist store system.disk system.coordinator snapshot fault =
    persistence at heffect
  cases heffect with
  | refused err => exact h
  | appendFailed => exact of_poisoned rfl
  | updateFailed => exact of_poisoned rfl
  | stored after next hready hvalid hadmits hbytes hsynced hnext =>
      -- only a recovered coordinator writes, and it is in step with the journal
      obtain ⟨hsound, hrecovered⟩ := Coordinator.requireReady_ok_iff.mp hready
      obtain ⟨records, hrefines⟩ := h.refines hsound hrecovered
      obtain ⟨hclean, hstored⟩ :=
        hrefines.stored (h.clean hsound) hvalid hadmits hbytes hnext
      exact
        { clean := fun _ => hclean
          refines := fun _ _ => ⟨_, hstored⟩
          waiting := fun _ hunrecovered => by
            rw [show system.coordinator.recovered = false from hunrecovered] at hrecovered
            cases hrecovered }

theorem step_recover (h : Faithful store system) (fault : Option ReplayFault) :
    Faithful store (system.step store (.recover fault)) := by
  have heffect := Coordinator.recover_effect store system.disk system.coordinator fault
  simp only [System.step, System.exec]
  generalize Coordinator.recover store system.disk system.coordinator fault = recovery at heffect
  cases heffect with
  | refused err hrefused => exact h
  | failed => exact of_poisoned rfl
  | exhausted projection records hunrecovered hsound hdecode happly hnext =>
      refine ⟨fun _ => h.clean hsound, ?_, fun _ _ => Or.inr ⟨hnext, ?_⟩⟩
      · intro _ hrecovered
        rw [show system.coordinator.recovered = true from hrecovered] at hunrecovered
        cases hunrecovered
      · rw [hdecode]
        rintro hempty
        obtain rfl : records = [] := Except.ok.inj hempty
        rcases h.waiting hsound hunrecovered with hinit | ⟨-, hnonempty⟩
        · -- the empty projection stands at sequence number zero
          cases happly
          rw [hinit] at hnext
          exact absurd hnext (by decide)
        · exact hnonempty hdecode
  | finished projection records count next hunrecovered hsound hdecode happly hnext =>
      rcases h.waiting hsound hunrecovered with hinit | ⟨hfull, hnonempty⟩
      · exact
          { clean := fun _ => h.clean hsound
            refines := fun _ _ => ⟨_, refines_of_finished hinit hdecode happly hnext⟩
            waiting := fun _ hfalse => by cases hfalse }
      · -- a second attempt cannot apply the records of the first one again
        rw [applyAll_of_exhausted hfull happly] at hdecode
        exact absurd hdecode hnonempty

/-- **Step lemma.** -/
theorem step (h : Faithful store system) {call : Call} (hcall : call.inProcess = true) :
    Faithful store (system.step store call) :=
  step_inProcess h h.step_recover h.step_persist hcall

/-- **Run lemma.** -/
theorem run (h : Faithful store system) {schedule : List Call}
    (hcalls : ∀ call ∈ schedule, call.inProcess = true) :
    Faithful store (system.run store schedule) :=
  Execution.invariant_run_of_forall (fun _ _ hfaithful hcall => hfaithful.step hcall) h hcalls

/-- Every state of a process that started on a clean journal. -/
theorem of_reachable {disk : Disk} (hclean : disk.Clean)
    (hreach : System.Reachable store disk system) : Faithful store system := by
  obtain ⟨schedule, hcalls, rfl⟩ := hreach
  exact (fresh hclean).run hcalls

end Faithful

/-- A `persist` that returns an error has changed nothing, or poisons. -/
theorem persist_error {store : Store} {disk : Disk} {coordinator : Coordinator}
    {snapshot : Record} {fault : Option PersistFault} {err : Error}
    (h : (Coordinator.persist store disk coordinator snapshot fault).result = .error err) :
    (Coordinator.persist store disk coordinator snapshot fault).disk = disk ∧
        (Coordinator.persist store disk coordinator snapshot fault).coordinator = coordinator ∨
      (Coordinator.persist store disk coordinator snapshot fault).coordinator.poisoned = true := by
  have heffect := Coordinator.persist_effect store disk coordinator snapshot fault
  generalize Coordinator.persist store disk coordinator snapshot fault = persistence at h heffect
  cases heffect with
  | refused err => exact Or.inl ⟨rfl, rfl⟩
  | appendFailed => exact Or.inr rfl
  | updateFailed => exact Or.inr rfl
  | stored => cases h

/-- **The live projection refines the journal.** Start a coordinator on a clean
journal and make any calls, with any failures. Whenever it is recovered and not
poisoned, its projection is the one of the journal's complete lines, the counter
is one past the last sequence number, and the sequence numbers increase. A
`persist` that returns an error leaves everything alone or poisons, and a
poisoned coordinator never touches the journal again. -/
theorem projection_refines_journal (store : Store) (disk : Disk) (hclean : disk.Clean)
    (system : System) (hreach : System.Reachable store disk system) :
    (system.coordinator.recovered = true → system.coordinator.poisoned = false →
      ∃ records,
        store.records system.disk = .ok records ∧
        Projection.init.applyAll records = .ok system.coordinator.projection ∧
        system.coordinator.nextSequence.toNat =
          system.coordinator.projection.lastSequence.toNat + 1 ∧
        records.Pairwise fun earlier later => earlier.sequence < later.sequence) ∧
    ∀ snapshot fault err,
      (Coordinator.persist store system.disk system.coordinator snapshot fault).result =
        .error err →
      system.step store (.persist snapshot fault) = system ∨
        (system.step store (.persist snapshot fault)).coordinator.poisoned = true ∧
          ∀ later : List Call, (∀ call ∈ later, call.inProcess = true) →
            ((system.step store (.persist snapshot fault)).run store later).disk =
              (system.step store (.persist snapshot fault)).disk := by
  have hfaithful := Faithful.of_reachable hclean hreach
  constructor
  · intro hrecovered hsound
    obtain ⟨records, hrefines⟩ := hfaithful.refines hsound hrecovered
    exact ⟨records, hrefines.journal, hrefines.projection, hrefines.next, hrefines.sequences⟩
  · intro snapshot fault err herror
    -- a refusal leaves the system as it was; every other error poisons
    rcases persist_error herror with ⟨hdisk, hcoordinator⟩ | hpoisoned
    · left
      simp only [System.step, System.exec, hdisk, hcoordinator]
    · right
      refine ⟨hpoisoned, fun later hlater => ?_⟩
      exact (run_poisoned hpoisoned hlater).2

/-- A process that recovers an absent journal, then publishes and leases an event. -/
def leasedEvent : System :=
  System.run jsonStore {}
    [.recover none,
     .persist (snapshot "event-1" "key-1" .published none) none,
     .persist (snapshot "event-1" "key-1" .leased (some "worker-1")) none]

/-- The third line is torn after five bytes. -/
def tornReceipt : Call :=
  .persist (snapshot "event-1" "key-1" .received (some "worker-1")) (some (.append (.write 5)))

theorem projection_refines_journal_leasedEvent :
    leasedEvent.coordinator.recovered = true ∧
    leasedEvent.coordinator.poisoned = false ∧
    leasedEvent.coordinator.nextSequence = 3 ∧
    (∃ records, Store.records jsonStore leasedEvent.disk = .ok records ∧
      Projection.init.applyAll records = .ok leasedEvent.coordinator.projection) ∧
    ∀ later : List Call, (∀ call ∈ later, call.inProcess = true) →
      ((leasedEvent.step jsonStore tornReceipt).run
          jsonStore later).disk =
        (leasedEvent.step jsonStore tornReceipt).disk := by
  have hreach : System.Reachable jsonStore {} leasedEvent := ⟨_, by decide, rfl⟩
  have hrecovered : leasedEvent.coordinator.recovered = true := by decide +kernel
  have hsound : leasedEvent.coordinator.poisoned = false := by decide +kernel
  obtain ⟨hrefines, herror⟩ :=
    projection_refines_journal jsonStore {} (by decide) leasedEvent hreach
  obtain ⟨records, hjournal, hprojection, -, -⟩ := hrefines hrecovered hsound
  refine ⟨hrecovered, hsound, by decide +kernel, ⟨records, hjournal, hprojection⟩, ?_⟩
  rcases herror (snapshot "event-1" "key-1" .received (some "worker-1"))
      (some (.append (.write 5))) .io (by decide +kernel) with hsame | ⟨-, hfenced⟩
  · exact absurd (congrArg (fun system => system.coordinator.poisoned) hsame) (by decide +kernel)
  · exact hfenced

end Ubiq.Settlement
