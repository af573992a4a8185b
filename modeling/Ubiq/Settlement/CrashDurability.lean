import Ubiq.Settlement.Refinement

/-!
# Durability across crashes

`CrashDurable` is the guarantee of the journal over a whole run: every recovery
succeeds and visits each record whose `persist` returned, in order and once.

The journal does not give it. A crash may leave a torn last line; `replay`
ignores that line, but the next `append` writes at the end of the file, behind
the torn bytes, and the two become one complete line that does not decode. The
guarantee holds in every run that never appends to a journal with a torn end:
that is the invariant `Durable`, with the list of records as abstract state.
-/

namespace Ubiq.Settlement

open Foundation

/-- A recovery that succeeds and visits all of `kept` in order, each record once:
the visited sequence numbers are strictly increasing. -/
inductive Outcome.Replayed (kept : List Record) : Outcome → Prop
  | visited (visited : List Record) (count : Nat) (hkept : kept.Sublist visited)
      (honce : visited.Pairwise fun earlier later => earlier.sequence < later.sequence) :
      Outcome.Replayed kept (.recovered visited (.ok count))

theorem Outcome.not_replayed_error (kept visited : List Record) (err : Error) :
    ¬Outcome.Replayed kept (.recovered visited (.error err)) := by
  intro h
  cases h

/-- Crash durability of a run that starts without a journal. A coordinator that
has already recovered refuses a second recovery by design. -/
def CrashDurable (store : Store) (schedule : List Call) : Prop :=
  ∀ before after, schedule = before ++ .recover none :: after →
    (System.run store {} before).coordinator.recovered = false →
    ((System.run store {} before).outcome store (.recover none)).Replayed
      (System.persisted store {} before)

/-- A recovery cut short by the allocator or by a read error. -/
def Call.faultyRecovery : Call → Bool
  | .recover fault => fault.isSome
  | _ => false

/-- The runs considered: the file stays below `max_bytes`, and no recovery is cut
short. -/
def Ordinary (store : Store) (system : System) (call : Call) : Prop :=
  system.disk.bytes.length < store.maxBytes.toNat ∧ call.faultyRecovery = false

instance decidableOrdinary (store : Store) (system : System) (call : Call) :
    Decidable (Ordinary store system call) :=
  inferInstanceAs (Decidable (_ ∧ _))

/-- No line is appended behind a torn one. -/
def AppendsClean (store : Store) (system : System) (call : Call) : Prop :=
  system.appending store call = true → system.disk.Clean

instance decidableAppendsClean (store : Store) (system : System) (call : Call) :
    Decidable (AppendsClean store system call) :=
  inferInstanceAs (Decidable (_ → _))

/-! ## The invariant -/

/-- The journal decodes to `records`, which apply to `projection` and contain all
that was persisted. Sequence numbers are handed out one by one from one on. -/
structure Holds (store : Store) (disk : Disk) (kept records : List Record)
    (projection : Projection) : Prop where
  journal : store.records disk = .ok records
  applied : Projection.init.applyAll records = .ok projection
  kept : kept.Sublist records
  counted : projection.lastSequence.toNat = records.length

/-- The coordinator's share: ready, it is in step with the journal; before its
recovery its projection is empty, unless a recovery has found the sequence
numbers used up. -/
structure InStep (coordinator : Coordinator) (records : List Record)
    (projection : Projection) : Prop where
  ready : coordinator.recovered = true → coordinator.poisoned = false →
    coordinator.projection = projection ∧ coordinator.nextSequence.toNat = records.length + 1
  waiting : coordinator.recovered = false → coordinator.poisoned = false →
    coordinator.projection = Projection.init ∨ addOne coordinator.projection.lastSequence = none

/-- The invariant of the runs that append to clean journals only. `goal` is any
further property of projections: it holds of the journal's projection and, after
recovery, of the live one. -/
def Durable (store : Store) (goal : Projection → Prop) (system : System)
    (kept : List Record) : Prop :=
  ∃ records projection, Holds store system.disk kept records projection ∧
    InStep system.coordinator records projection ∧ goal projection ∧
    (system.coordinator.recovered = true → goal system.coordinator.projection)

/-- The record that a call writes, if any, keeps a property of the projection. -/
def Preserves (store : Store) (goal : Projection → Prop) (system : System) (call : Call) : Prop :=
  ∀ snapshot, call.snapshot? = some snapshot → system.appending store call = true →
    goal system.coordinator.projection →
    goal (system.coordinator.projection.put (system.coordinator.stamp snapshot))

theorem InStep.init (records : List Record) (projection : Projection) :
    InStep Coordinator.init records projection where
  ready h := by cases h
  waiting _ _ := Or.inl rfl

/-- A poisoned coordinator owes nothing. -/
theorem InStep.of_poisoned {coordinator : Coordinator} {records : List Record}
    {projection : Projection} (hpoisoned : coordinator.poisoned = true) :
    InStep coordinator records projection where
  ready _ hsound := by rw [hpoisoned] at hsound; cases hsound
  waiting _ hsound := by rw [hpoisoned] at hsound; cases hsound

namespace Holds

variable {store : Store} {disk after : Disk} {kept records : List Record}
  {projection : Projection}

/-- Only the content of the file matters. -/
theorem of_bytes (h : Holds store disk kept records projection)
    (hbytes : after.bytes = disk.bytes) : Holds store after kept records projection where
  journal := by
    have hjournal := h.journal
    unfold Store.records Disk.lines at hjournal ⊢
    rwa [hbytes]
  applied := h.applied
  kept := h.kept
  counted := h.counted

/-- One more record, known to the caller or not. -/
theorem snoc (h : Holds store disk kept records projection) {record : Record}
    {more : List Record} (hmore : more.Sublist [record])
    (hjournal : store.records after = .ok (records ++ [record]))
    (hvalid : projection.validate record = .ok ())
    (hsequence : record.sequence.toNat = records.length + 1) :
    Holds store after (kept ++ more) (records ++ [record]) (projection.put record) where
  journal := hjournal
  applied := by
    rw [Projection.applyAll_append_singleton h.applied]
    exact Projection.apply_of_validate hvalid
  kept := h.kept.append hmore
  counted := by
    rw [Projection.put_lastSequence, hsequence]
    simp

/-- Below the size limit the sequence numbers cannot run out. -/
theorem addOne_lastSequence (h : Holds store disk kept records projection)
    (hsize : disk.bytes.length < store.maxBytes.toNat) :
    ∃ next, addOne projection.lastSequence = some next := by
  cases hnext : addOne projection.lastSequence with
  | some next => exact ⟨next, rfl⟩
  | none =>
      rw [addOne_eq_none_iff, h.counted] at hnext
      -- every record costs at least two bytes of the file
      have hlength := two_mul_length_records_le h.journal
      have hmax := store.maxBytes.toNat_lt
      omega

end Holds

variable {goal : Projection → Prop} {system : System}

variable {store : Store} {kept : List Record} {schedule : List Call}

/-- The effect of `persist` on a durable system: the journal keeps everything
persisted so far and gains the record of a successful call. -/
theorem durable_persist (h : Durable store goal system kept)
    {snapshot : Record} (fault : Option PersistFault)
    (hclean : system.writes store snapshot = true → system.disk.Clean)
    (hgoal : system.writes store snapshot = true → goal system.coordinator.projection →
      goal (system.coordinator.projection.put (system.coordinator.stamp snapshot))) :
    Durable store goal (system.step store (.persist snapshot fault))
      (kept ++ (system.outcome store (.persist snapshot fault)).stored) := by
  obtain ⟨records, projection, hholds, hstep, hstored, hlive⟩ := h
  have heffect := Coordinator.persist_effect store system.disk system.coordinator snapshot fault
  simp only [System.step, System.outcome, System.exec]
  generalize Coordinator.persist store system.disk system.coordinator snapshot fault =
    persistence at heffect
  -- what a call that gets as far as the write knows
  have hwriting (hready : system.coordinator.requireReady = .ok ())
      (hvalid : system.coordinator.projection.validate (system.coordinator.stamp snapshot) =
        .ok ())
      (hadmits : store.admits system.disk (system.coordinator.stamp snapshot) = true) :
      system.disk.Clean ∧
        goal (system.coordinator.projection.put (system.coordinator.stamp snapshot)) := by
    have hwrites : system.writes store snapshot = true := by
      simp [System.writes, hready, hvalid, hadmits]
    obtain ⟨-, hrecovered⟩ := Coordinator.requireReady_ok_iff.mp hready
    exact ⟨hclean hwrites, hgoal hwrites (hlive hrecovered)⟩
  cases heffect with
  | refused err =>
      refine ⟨records, projection, ?_, hstep, hstored, hlive⟩
      simpa [Outcome.stored] using hholds
  | appendFailed err after torn hready hvalid hbytes hsynced htorn =>
      obtain ⟨hsound, hrecovered⟩ := Coordinator.requireReady_ok_iff.mp hready
      obtain ⟨rfl, hnext⟩ := hstep.ready hrecovered hsound
      have hpoisoned : ∀ records projection,
          InStep { system.coordinator with poisoned := true } records projection :=
        fun _ _ => InStep.of_poisoned rfl
      simp only [Outcome.stored, List.append_nil]
      -- nothing was written, or a prefix of the line: torn, or all of it
      rcases htorn with rfl | ⟨hadmits, hprefix⟩
      · exact ⟨records, _, hholds.of_bytes (by simpa using hbytes), hpoisoned _ _, hstored, hlive⟩
      · obtain ⟨hdisk, hput⟩ := hwriting hready hvalid hadmits
        rcases records_append_prefix hdisk hholds.journal hadmits hprefix hbytes with hsame | hmore
        · exact ⟨records, _, ⟨hsame, hholds.applied, hholds.kept, hholds.counted⟩,
            hpoisoned _ _, hstored, hlive⟩
        · have hsnoc := hholds.snoc (List.nil_sublist _) hmore hvalid hnext
          rw [List.append_nil] at hsnoc
          exact ⟨_, _, hsnoc, hpoisoned _ _, hput, hlive⟩
  | updateFailed err after failed hready hvalid hadmits hbytes hsynced hfailed =>
      obtain ⟨hsound, hrecovered⟩ := Coordinator.requireReady_ok_iff.mp hready
      obtain ⟨rfl, hnext⟩ := hstep.ready hrecovered hsound
      obtain ⟨hdisk, hput⟩ := hwriting hready hvalid hadmits
      have hmore := (records_append_line hdisk hholds.journal hadmits hbytes).1
      -- the record is in the journal although its caller has seen an error
      refine ⟨_, _, hholds.snoc (List.nil_sublist _) hmore hvalid hnext,
        InStep.of_poisoned rfl, hput, fun _ => ?_⟩
      rcases hfailed with rfl | rfl
      · exact hstored
      · exact hput
  | stored after next hready hvalid hadmits hbytes hsynced hnextSome =>
      obtain ⟨hsound, hrecovered⟩ := Coordinator.requireReady_ok_iff.mp hready
      obtain ⟨rfl, hnext⟩ := hstep.ready hrecovered hsound
      obtain ⟨hdisk, hput⟩ := hwriting hready hvalid hadmits
      have hmore := (records_append_line hdisk hholds.journal hadmits hbytes).1
      refine ⟨_, _, hholds.snoc (List.Sublist.refl _) hmore hvalid hnext, ⟨?_, ?_⟩, hput,
        fun _ => hput⟩
      · intro _ _
        refine ⟨rfl, ?_⟩
        rw [toNat_addOne hnextSome, hnext]
        simp
      · intro hfresh
        rw [show system.coordinator.recovered = false from hfresh] at hrecovered
        cases hrecovered

/-- The effect of `recover`: the projection is that of the journal, or the
coordinator is not recovered. -/
theorem durable_recover (h : Durable store goal system kept)
    (fault : Option ReplayFault) :
    Durable store goal (system.step store (.recover fault)) kept := by
  obtain ⟨records, projection, hholds, hstep, hstored, hlive⟩ := h
  have heffect := Coordinator.recover_effect store system.disk system.coordinator fault
  simp only [System.step, System.exec]
  generalize Coordinator.recover store system.disk system.coordinator fault = recovery at heffect
  have hunready {unready : Coordinator} (hsame : unready.recovered = system.coordinator.recovered)
      (hunrecovered : system.coordinator.recovered = false) : ¬unready.recovered = true := by
    rw [hsame, hunrecovered]
    exact Bool.false_ne_true
  cases heffect with
  | refused err hrefused => exact ⟨records, projection, hholds, hstep, hstored, hlive⟩
  | failed err partly visited hunrecovered =>
      exact ⟨records, projection, hholds, InStep.of_poisoned rfl, hstored,
        fun hrecovered => absurd hrecovered (hunready rfl hunrecovered)⟩
  | exhausted full found hunrecovered hsound hdecode happly hnext =>
      exact ⟨records, projection, hholds,
        ⟨fun hrecovered => absurd hrecovered (hunready rfl hunrecovered), fun _ _ => Or.inr hnext⟩,
        hstored, fun hrecovered => absurd hrecovered (hunready rfl hunrecovered)⟩
  | finished final found count next hunrecovered hsound hdecode happly hnext =>
      rcases hstep.waiting hunrecovered hsound with hinit | hfull
      · obtain rfl : found = records := Except.ok.inj (hdecode.symm.trans hholds.journal)
        rw [hinit] at happly
        obtain rfl : final = projection := Except.ok.inj (happly.symm.trans hholds.applied)
        refine ⟨found, final, hholds, ⟨fun _ _ => ⟨rfl, ?_⟩, fun hfalse => by cases hfalse⟩,
          hstored, fun _ => hstored⟩
        exact (toNat_addOne hnext).trans (congrArg (· + 1) hholds.counted)
      · -- nothing can be applied behind the last sequence number
        obtain rfl := applyAll_of_exhausted hfull happly
        cases happly
        rw [hfull] at hnext
        cases hnext

/-- A recovery of a durable system by a new coordinator succeeds. -/
theorem recover_of_init (h : Durable store goal system kept)
    (hsize : system.disk.bytes.length < store.maxBytes.toNat)
    (hinit : system.coordinator = Coordinator.init) :
    ∃ records projection next, Holds store system.disk kept records projection ∧
      Coordinator.recover store system.disk system.coordinator none =
        ⟨⟨projection, next, true, false⟩, records, .ok records.length⟩ := by
  obtain ⟨records, projection, hholds, -⟩ := h
  obtain ⟨next, hnext⟩ := hholds.addOne_lastSequence hsize
  refine ⟨records, projection, next, hholds, ?_⟩
  rw [hinit]
  exact Coordinator.recover_of_records hholds.journal hholds.applied hsize hnext

/-- The journal outlives the process, with all that was persisted. -/
theorem Durable.takeover {fewer : List Record}
    (h : Durable store goal system kept) (hfewer : fewer.Sublist kept) :
    Durable store goal ⟨system.disk, Coordinator.init⟩ fewer := by
  obtain ⟨records, projection, hholds, -, hstored, -⟩ := h
  exact ⟨records, projection,
    ⟨hholds.journal, hholds.applied, hfewer.trans hholds.kept, hholds.counted⟩,
    InStep.init _ _, hstored, fun hfalse => by cases hfalse⟩

/-- **Step lemma.** -/
theorem Durable.step (h : Durable store goal system kept)
    {call : Call} (hclean : AppendsClean store system call)
    (hgoal : Preserves store goal system call) :
    Durable store goal (system.step store call)
      (kept ++ (system.outcome store call).stored) := by
  cases call with
  | recover fault =>
      have hnothing : (system.outcome store (.recover fault)).stored = [] := rfl
      rw [hnothing, List.append_nil]
      exact durable_recover h fault
  | persist snapshot fault => exact durable_persist h fault hclean (hgoal snapshot rfl)
  | commitSettlementAndAck snapshot ackSubject fault published =>
      rw [step_commit]
      by_cases hsettled : snapshot.deliveryState.settled = true
      · have happending : system.writes store snapshot = true →
            system.appending store
              (.commitSettlementAndAck snapshot ackSubject fault published) = true := by
          intro hwrites
          simp [System.appending, hsettled, hwrites]
        rw [if_pos hsettled, stored_commit hsettled]
        exact durable_persist h fault (fun hwrites => hclean (happending hwrites))
          fun hwrites => hgoal snapshot rfl (happending hwrites)
      · rw [if_neg hsettled]
        have hnothing : (system.outcome store
            (.commitSettlementAndAck snapshot ackSubject fault published)).stored = [] := by
          simp [System.outcome, System.exec, Coordinator.commitSettlementAndAck, hsettled,
            Outcome.stored]
        rwa [hnothing, List.append_nil]
  | ackIfAlreadySettled idempotencyKey ackSubject published =>
      show Durable store goal system (kept ++ [])
      rwa [List.append_nil]
  | restart =>
      show Durable store goal ⟨system.disk, Coordinator.init⟩ (kept ++ [])
      rw [List.append_nil]
      exact h.takeover (List.Sublist.refl _)
  | crash snapshot written =>
      -- the journal may hold one record more than was reported
      have hpersist := durable_persist h (some (.append (.write written))) hclean
        (hgoal snapshot rfl)
      exact hpersist.takeover (List.Sublist.append (List.Sublist.refl kept) (List.nil_sublist _))

/-- **Run lemma.** -/
theorem Durable.run (h : Durable store goal system kept)
    (hclean : Execution.Along (System.step store) (AppendsClean store) system schedule)
    (hgoal : Execution.Along (System.step store) (Preserves store goal) system schedule) :
    Durable store goal (system.run store schedule)
      (kept ++ System.persisted store system schedule) := by
  induction schedule generalizing system kept with
  | nil =>
      show Durable store goal system (kept ++ [])
      rwa [List.append_nil]
  | cons call rest ih =>
      have hend := ih (h.step hclean.1 hgoal.1) hclean.2 hgoal.2
      rwa [List.append_assoc] at hend

/-- Before the journal exists. -/
theorem durable_empty (store : Store) : Durable store (fun _ => True) {} [] :=
  ⟨[], Projection.init, ⟨rfl, rfl, List.Sublist.refl _, rfl⟩, InStep.init _ _, trivial,
    fun _ => trivial⟩

/-- The journal's own share of the invariant asks for nothing but clean appends. -/
theorem durable_run_empty
    (hclean : Execution.Along (System.step store) (AppendsClean store) {} schedule) :
    Durable store (fun _ => True) (System.run store {} schedule)
      (System.persisted store {} schedule) := by
  have htrivial : Execution.Along (System.step store) (Preserves store fun _ => True) {}
      schedule := hclean.imp fun _ _ _ _ _ _ _ => trivial
  exact (durable_empty store).run hclean htrivial

/-! ## Runs in which every recovery succeeds -/

/-- A coordinator that has not recovered is a new one. -/
def Unstarted (system : System) : Prop :=
  system.coordinator.recovered = false → system.coordinator = Coordinator.init

theorem unstarted_persist (h : Unstarted system) (snapshot : Record)
    (fault : Option PersistFault) : Unstarted (system.step store (.persist snapshot fault)) := by
  have heffect := Coordinator.persist_effect store system.disk system.coordinator snapshot fault
  simp only [System.step, System.exec]
  generalize Coordinator.persist store system.disk system.coordinator snapshot fault =
    persistence at heffect
  have hwriting (hready : system.coordinator.requireReady = .ok ()) :
      ¬system.coordinator.recovered = false := by
    rw [(Coordinator.requireReady_ok_iff.mp hready).2]
    exact Bool.false_ne_true.symm
  cases heffect with
  | refused err => exact h
  | appendFailed _ _ _ hready => exact fun hfalse => absurd hfalse (hwriting hready)
  | updateFailed _ _ _ hready => exact fun hfalse => absurd hfalse (hwriting hready)
  | stored _ _ hready => exact fun hfalse => absurd hfalse (hwriting hready)

theorem Unstarted.step (h : Unstarted system)
    (hdurable : Durable store goal system kept) {call : Call}
    (hordinary : Ordinary store system call) : Unstarted (system.step store call) := by
  cases call with
  | recover fault =>
      obtain rfl : fault = none := by simpa [Call.faultyRecovery] using hordinary.2
      intro hfalse
      by_cases hfresh : system.coordinator.recovered = false
      · obtain ⟨records, projection, next, -, hrecover⟩ :=
          recover_of_init hdurable hordinary.1 (h hfresh)
        simp only [System.step, System.exec, hrecover, Bool.true_eq_false] at hfalse
      · simp [System.step, System.exec, Coordinator.recover, hfresh] at hfalse
  | persist snapshot fault => exact unstarted_persist h snapshot fault
  | commitSettlementAndAck snapshot ackSubject fault published =>
      rw [step_commit]
      split
      · exact unstarted_persist h snapshot fault
      · exact h
  | ackIfAlreadySettled idempotencyKey ackSubject published => exact h
  | restart => exact fun _ => rfl
  | crash snapshot written => exact fun _ => rfl

theorem Unstarted.run (h : Unstarted system) (hdurable : Durable store (fun _ => True) system kept)
    (hordinary : Execution.Along (System.step store) (Ordinary store) system schedule)
    (hclean : Execution.Along (System.step store) (AppendsClean store) system schedule) :
    Unstarted (system.run store schedule) := by
  induction schedule generalizing system kept with
  | nil => exact h
  | cons call rest ih =>
      exact ih (h.step hdurable hordinary.1) (hdurable.step hclean.1 fun _ _ _ _ => trivial)
        hordinary.2 hclean.2

/-- **Crash durability** of every run that never appends behind a torn line. -/
theorem crashDurable_of_appendsClean (store : Store) (schedule : List Call)
    (hordinary : Execution.Along (System.step store) (Ordinary store) {} schedule)
    (hclean : Execution.Along (System.step store) (AppendsClean store) {} schedule) :
    CrashDurable store schedule := by
  rintro before after rfl hfresh
  rw [Execution.along_append, Execution.along_cons] at hordinary hclean
  have hunstarted : Unstarted (System.run store {} before) :=
    Unstarted.run (fun _ => rfl) (durable_empty store) hordinary.1 hclean.1
  obtain ⟨records, projection, next, hholds, hrecover⟩ :=
    recover_of_init (durable_run_empty hclean.1) hordinary.2.1.1 (hunstarted hfresh)
  simp only [System.outcome, System.exec, hrecover]
  exact .visited _ _ hholds.kept (Projection.applyAll_sequences hholds.applied).1

/-- A crash after the whole line, a crash inside a line, and a recovery after each. -/
def cleanAppends : List Call :=
  [.recover none,
   .persist (snapshot "event-1" "key-1" .published none) none,
   .crash (snapshot "event-2" "key-2" .published none) 1000,
   .recover none,
   .persist (snapshot "event-3" "key-3" .published none) none,
   .crash (snapshot "event-4" "key-4" .published none) 12]

theorem crashDurable_cleanAppends :
    ((System.run jsonStore {} cleanAppends).outcome jsonStore
        (.recover none)).Replayed
      (System.persisted jsonStore {} cleanAppends) ∧
    (System.persisted jsonStore {} cleanAppends).map Record.sequence = [1, 3] := by
  -- one evaluation of the run for all facts about it
  have hrun : Execution.Along (System.step jsonStore) (Ordinary jsonStore) {}
        (cleanAppends ++ [.recover none]) ∧
      Execution.Along (System.step jsonStore) (AppendsClean jsonStore) {}
        (cleanAppends ++ [.recover none]) ∧
      (System.run jsonStore {} cleanAppends).coordinator.recovered = false ∧
      (System.persisted jsonStore {} cleanAppends).map Record.sequence = [1, 3] := by
    decide +kernel
  obtain ⟨hordinary, hclean, hfresh, hsequences⟩ := hrun
  have hdurable : CrashDurable jsonStore (cleanAppends ++ [.recover none]) :=
    crashDurable_of_appendsClean _ _ hordinary hclean
  exact ⟨hdurable cleanAppends [] rfl hfresh, hsequences⟩

/-- A crash twelve bytes into the first line, a recovery, a successful `persist`
behind the torn bytes, and one more start of the process. -/
def tornAppend : List Call :=
  [.recover none,
   .crash (snapshot "event-1" "key-1" .published none) 12,
   .recover none,
   .persist (snapshot "event-2" "key-2" .published none) none,
   .restart]

/-- The record of the successful `persist` is lost, and the journal can no longer
be recovered. -/
theorem not_crashDurable_tornAppend :
    Execution.Along (System.step jsonStore) (Ordinary jsonStore) {}
      (tornAppend ++ [.recover none]) ∧
    (System.persisted jsonStore {} tornAppend).length = 1 ∧
    ¬CrashDurable jsonStore (tornAppend ++ [.recover none]) := by
  have hrun : Execution.Along (System.step jsonStore) (Ordinary jsonStore) {}
        (tornAppend ++ [.recover none]) ∧
      (System.persisted jsonStore {} tornAppend).length = 1 ∧
      (System.run jsonStore {} tornAppend).coordinator.recovered = false ∧
      (Coordinator.recover jsonStore (System.run jsonStore {} tornAppend).disk
        (System.run jsonStore {} tornAppend).coordinator none).result =
          .error .checksumMismatch := by
    decide +kernel
  obtain ⟨hordinary, hpersisted, hfresh, hfailed⟩ := hrun
  refine ⟨hordinary, hpersisted, ?_⟩
  intro hdurable
  have hreplayed := hdurable tornAppend [] rfl hfresh
  simp only [System.outcome, System.exec, hfailed] at hreplayed
  exact Outcome.not_replayed_error _ _ _ hreplayed

end Ubiq.Settlement
