import Ubiq.Settlement.Refinement

/-!
# No acknowledgement before durable settlement

A JetStream acknowledgement ends the redeliveries of an event, so it must not be
sent before the settlement is on stable storage. `AckDurable` says so of a whole
run of one process, for both operations that acknowledge.

It holds for every process that starts on a clean journal that is synced in full
(`ackDurable_of_synced`). `replay` accepts other journals. Behind a torn line
the record of the acknowledged settlement is not a line of its own; and a line
that a dead process wrote but did not sync is acknowledged on the strength of the
page cache.
-/

namespace Ubiq.Settlement

open Foundation

/-- The line is a settled record with this key. -/
def Store.settledLine (store : Store) (key line : Bytes) : Bool :=
  match store.decodeLine line with
  | .ok record => record.idempotencyKey = key ∧ record.deliveryState.settled = true
  | .error _ => false

/-- A complete line of the synced part of the file is a settled record with this
key. -/
def Disk.HoldsSettled (store : Store) (disk : Disk) (key : Bytes) : Prop :=
  ∃ line ∈ Lines.completeLines newline (disk.bytes.take disk.synced),
    store.settledLine key line = true

instance decidableHoldsSettled (store : Store) (disk : Disk) (key : Bytes) :
    Decidable (disk.HoldsSettled store key) :=
  inferInstanceAs (Decidable (∃ line ∈ _, _))

/-- `js.ack` was invoked. -/
def Outcome.acked : Outcome → Bool
  | .committed _ _ acked _ => acked
  | .redelivered acked _ => acked
  | _ => false

/-- `js.ack` was invoked and returned an error. -/
def Outcome.ackFailed : Outcome → Bool
  | .committed _ _ acked (.error _) => acked
  | .redelivered acked (.error _) => acked
  | _ => false

/-- The idempotency key that a call acknowledges. -/
def Call.ackKey? : Call → Option Bytes
  | .commitSettlementAndAck snapshot _ _ _ => some snapshot.idempotencyKey
  | .ackIfAlreadySettled idempotencyKey _ _ => some idempotencyKey
  | _ => none

/-- What a call must respect. It acknowledges only what the journal holds; it
sends nothing for an unsettled snapshot, or when the coordinator is not ready;
and after a failed acknowledgement the redelivery is acknowledged, with the
system left as it is. -/
structure AckSound (store : Store) (system : System) (call : Call) : Prop where
  durable : (system.outcome store call).acked = true →
    ∃ key, call.ackKey? = some key ∧ (system.step store call).disk.HoldsSettled store key
  unsettled : ∀ snapshot, call.snapshot? = some snapshot →
    snapshot.deliveryState.settled = false → (system.outcome store call).acked = false
  unready : ¬system.coordinator.Ready → (system.outcome store call).acked = false
  retry : (system.outcome store call).ackFailed = true →
    ∃ key, call.ackKey? = some key ∧ ∀ ackSubject published,
      (system.step store call).exec store (.ackIfAlreadySettled key ackSubject published) =
        (system.step store call,
          .redelivered true ((JetStream.ack ackSubject published).map fun _ => true))

/-- Every call of a run of one process respects it. -/
def AckDurable (store : Store) (disk : Disk) (schedule : List Call) : Prop :=
  ∀ before call after, schedule = before ++ call :: after →
    AckSound store (System.run store ⟨disk, Coordinator.init⟩ before) call

/-! ## Settled entries are lines of the journal -/

variable {records : List Record} {store : Store} {key : Bytes} {system : System} {call : Call}

/-- Every entry of a projection is one of the records it was made of. -/
theorem mem_of_applyAll {projection final : Projection} (hformed : projection.WellFormed)
    (happly : projection.applyAll records = .ok final) {entry : Record}
    (hentry : entry ∈ final.entries) : entry ∈ projection.entries ∨ entry ∈ records := by
  induction records generalizing projection with
  | nil =>
      cases happly
      exact Or.inl hentry
  | cons record records ih =>
      obtain ⟨middle, hfirst, hrest⟩ := Projection.applyAll_cons_ok_iff.mp happly
      rcases ih (hformed.apply hfirst) hrest with hmiddle | hlater
      · obtain ⟨-, rfl⟩ := Projection.apply_ok_iff.mp hfirst
        rcases hformed.mem_put.mp hmiddle with rfl | ⟨hold, -⟩
        · exact Or.inr List.mem_cons_self
        · exact Or.inl hold
      · exact Or.inr (List.mem_cons_of_mem _ hlater)

/-- Every decoded record is the record of a line. -/
theorem line_of_decodeLines {lines : List Bytes} (h : store.decodeLines lines = .ok records)
    {record : Record} (hmem : record ∈ records) :
    ∃ line ∈ lines, store.decodeLine line = .ok record := by
  induction lines generalizing records with
  | nil =>
      cases h
      cases hmem
  | cons line lines ih =>
      obtain ⟨first, rest, hline, hlines, rfl⟩ := decodeLines_cons_ok_iff.mp h
      rcases List.mem_cons.mp hmem with rfl | hrest
      · exact ⟨line, List.mem_cons_self, hline⟩
      · obtain ⟨other, hother, hdecode⟩ := ih hlines hrest
        exact ⟨other, List.mem_cons_of_mem _ hother, hdecode⟩

/-- What a coordinator in step with a synced journal calls settled, the journal
holds. -/
theorem Refines.holdsSettled {disk : Disk} {coordinator : Coordinator}
    (h : Refines store disk coordinator records) (hsynced : disk.synced = disk.bytes.length)
    (hsettled : coordinator.isSettled key = true) : disk.HoldsSettled store key := by
  obtain ⟨entry, hentry, hkey, hstate⟩ := h.wellFormed.isSettled_iff.mp hsettled
  -- a fresh projection has no entries of its own
  have hrecord : entry ∈ records := by
    rcases mem_of_applyAll Projection.wellFormed_init h.projection hentry with hnone | hmem
    · cases hnone
    · exact hmem
  obtain ⟨line, hline, hdecode⟩ := line_of_decodeLines h.journal hrecord
  refine ⟨line, ?_, by simp [Store.settledLine, hdecode, hkey, hstate]⟩
  rw [hsynced, List.take_length]
  exact hline

/-! ## Runs on a synced journal -/

/-- Until the coordinator is poisoned, all of the file is synced. -/
def Synced (system : System) : Prop :=
  system.coordinator.poisoned = false → system.disk.synced = system.disk.bytes.length

theorem Synced.step_persist (h : Synced system) (snapshot : Record) (fault : Option PersistFault) :
    Synced (system.step store (.persist snapshot fault)) := by
  have heffect := Coordinator.persist_effect store system.disk system.coordinator snapshot fault
  simp only [System.step, System.exec]
  generalize Coordinator.persist store system.disk system.coordinator snapshot fault =
    persistence at heffect
  cases heffect with
  | refused err => exact h
  | appendFailed => exact fun hsound => by cases hsound
  | updateFailed => exact fun hsound => by cases hsound
  | stored after next hready hvalid hadmits hbytes hsynced hnext => exact fun _ => hsynced

theorem Synced.step_recover (h : Synced system) (fault : Option ReplayFault) :
    Synced (system.step store (.recover fault)) := by
  have heffect := Coordinator.recover_effect store system.disk system.coordinator fault
  simp only [System.step, System.exec]
  generalize Coordinator.recover store system.disk system.coordinator fault = recovery at heffect
  -- a recovery reads the file and leaves it alone
  cases heffect with
  | refused => exact h
  | failed => exact fun hsound => by cases hsound
  | exhausted => exact h
  | finished => exact h

/-- **Step lemma.** -/
theorem Synced.step (h : Synced system) (hcall : call.inProcess = true) :
    Synced (system.step store call) :=
  step_inProcess h h.step_recover h.step_persist hcall

/-- **Run lemma.** -/
theorem Synced.run (h : Synced system) {schedule : List Call}
    (hcalls : ∀ call ∈ schedule, call.inProcess = true) :
    Synced (system.run store schedule) :=
  Execution.invariant_run_of_forall (fun _ _ hsynced hcall => hsynced.step hcall) h hcalls

/-! ## Every call is sound -/

/-- A `persist` that returns leaves a ready coordinator that knows its record. -/
theorem persist_ok {disk : Disk} {coordinator : Coordinator} {snapshot : Record}
    {fault : Option PersistFault} {sequence : UInt64}
    (h : (Coordinator.persist store disk coordinator snapshot fault).result = .ok sequence) :
    coordinator.Ready ∧
      (Coordinator.persist store disk coordinator snapshot fault).coordinator.Ready ∧
      coordinator.projection.validate (coordinator.stamp snapshot) = .ok () ∧
      (Coordinator.persist store disk coordinator snapshot fault).coordinator.projection =
        coordinator.projection.put (coordinator.stamp snapshot) := by
  have heffect := Coordinator.persist_effect store disk coordinator snapshot fault
  generalize Coordinator.persist store disk coordinator snapshot fault = persistence at h heffect
  cases heffect with
  | refused => cases h
  | appendFailed => cases h
  | updateFailed => cases h
  | stored after next hready hvalid => exact ⟨hready, hready, hvalid, rfl⟩

/-- A ready coordinator acknowledges the redelivery of a settled key and changes
nothing. -/
theorem exec_ackIfAlreadySettled (hready : system.coordinator.Ready)
    (hsettled : system.coordinator.isSettled key = true) (ackSubject : Bytes) (published : Bool) :
    system.exec store (.ackIfAlreadySettled key ackSubject published) =
      (system, .redelivered true ((JetStream.ack ackSubject published).map fun _ => true)) := by
  simp only [System.exec, Coordinator.ackIfAlreadySettled]
  rw [hready]
  simp [hsettled]

/-- When `commitSettlementAndAck` acknowledges: the snapshot is settled and
`persist` has returned. -/
theorem acked_commit {snapshot : Record} {ackSubject : Bytes} {fault : Option PersistFault}
    {published : Bool} (h : (system.outcome store
      (.commitSettlementAndAck snapshot ackSubject fault published)).acked = true) :
    snapshot.deliveryState.settled = true ∧ ∃ sequence,
      (Coordinator.persist store system.disk system.coordinator snapshot fault).result =
        .ok sequence := by
  by_cases hsettled : snapshot.deliveryState.settled = true
  · refine ⟨hsettled, ?_⟩
    simp only [System.outcome, System.exec, Coordinator.commitSettlementAndAck, hsettled,
      Bool.not_true, Bool.false_eq_true, if_false] at h
    cases hresult : (Coordinator.persist store system.disk system.coordinator snapshot
        fault).result with
    | error err => simp [hresult, Outcome.acked] at h
    | ok sequence => exact ⟨sequence, rfl⟩
  · simp [System.outcome, System.exec, Coordinator.commitSettlementAndAck, hsettled,
      Outcome.acked] at h

/-- When `ackIfAlreadySettled` acknowledges. -/
theorem acked_redelivery {ackSubject : Bytes} {published : Bool}
    (h : (system.outcome store (.ackIfAlreadySettled key ackSubject published)).acked = true) :
    system.coordinator.Ready ∧ system.coordinator.isSettled key = true := by
  simp only [System.outcome, System.exec, Coordinator.ackIfAlreadySettled, Outcome.acked] at h
  cases hready : system.coordinator.requireReady with
  | error err => simp [hready] at h
  | ok _ =>
      refine ⟨hready, ?_⟩
      by_contra hsettled
      rw [Bool.not_eq_true] at hsettled
      simp [hready, hsettled] at h

/-- **Acknowledged means settled.** After an acknowledgement the coordinator was
and is ready and knows the key as settled. -/
theorem settled_of_acked (h : Faithful store system)
    (hacked : (system.outcome store call).acked = true) :
    system.coordinator.Ready ∧ ∃ key, call.ackKey? = some key ∧
      (system.step store call).coordinator.Ready ∧
      (system.step store call).coordinator.isSettled key = true := by
  cases call with
  | recover fault => cases hacked
  | persist snapshot fault => cases hacked
  | commitSettlementAndAck snapshot ackSubject fault published =>
      obtain ⟨hsettled, sequence, hresult⟩ := acked_commit hacked
      obtain ⟨hready, hafter, hvalid, hprojection⟩ := persist_ok hresult
      obtain ⟨hsound, hrecovered⟩ := Coordinator.requireReady_ok_iff.mp hready
      obtain ⟨records, hrefines⟩ := h.refines hsound hrecovered
      rw [step_commit, if_pos hsettled]
      refine ⟨hready, _, rfl, hafter, ?_⟩
      show (Coordinator.persist store system.disk system.coordinator snapshot
        fault).coordinator.projection.isSettled snapshot.idempotencyKey = true
      rw [hprojection]
      have hformed := hrefines.wellFormed
      -- the new record is an entry of the projection, under its own key
      refine (hformed.apply (Projection.apply_of_validate hvalid)).isSettled_iff.mpr ?_
      exact ⟨system.coordinator.stamp snapshot, hformed.mem_put.mpr (Or.inl rfl), rfl, hsettled⟩
  | ackIfAlreadySettled key ackSubject published =>
      obtain ⟨hready, hsettled⟩ := acked_redelivery hacked
      exact ⟨hready, key, rfl, hready, hsettled⟩
  | restart => cases hacked
  | crash snapshot written => cases hacked

theorem acked_of_ackFailed {outcome : Outcome} (h : outcome.ackFailed = true) :
    outcome.acked = true := by
  cases outcome with
  | committed record stored acked result =>
      cases result with
      | error err => exact h
      | ok _ => cases h
  | redelivered acked result =>
      cases result with
      | error err => exact h
      | ok _ => cases h
  | _ => cases h

/-- Every call on a faithful, synced system respects the rules. -/
theorem ackSound_of_synced (hfaithful : Faithful store system) (hsynced : Synced system)
    (hcall : call.inProcess = true) :
    AckSound store system call where
  durable hacked := by
    obtain ⟨-, key, hkey, hready, hsettled⟩ := settled_of_acked hfaithful hacked
    obtain ⟨hsound, hrecovered⟩ := Coordinator.requireReady_ok_iff.mp hready
    obtain ⟨records, hrefines⟩ := (hfaithful.step hcall).refines hsound hrecovered
    exact ⟨key, hkey, hrefines.holdsSettled (hsynced.step hcall hsound) hsettled⟩
  unsettled snapshot hsnapshot hunsettled := by
    cases call with
    | commitSettlementAndAck other ackSubject fault published =>
        obtain rfl : other = snapshot := Option.some.inj hsnapshot
        by_contra hacked
        rw [Bool.not_eq_false] at hacked
        rw [(acked_commit hacked).1] at hunsettled
        cases hunsettled
    | recover => cases hsnapshot
    | persist => rfl
    | ackIfAlreadySettled => cases hsnapshot
    | restart => cases hsnapshot
    | crash => rfl
  unready hunready := by
    by_contra hacked
    rw [Bool.not_eq_false] at hacked
    exact hunready (settled_of_acked hfaithful hacked).1
  retry hfailed := by
    obtain ⟨-, key, hkey, hready, hsettled⟩ :=
      settled_of_acked hfaithful (acked_of_ackFailed hfailed)
    exact ⟨key, hkey, exec_ackIfAlreadySettled hready hsettled⟩

/-- **No acknowledgement before durable settlement**, in every run of a process
that starts on a clean and fully synced journal. -/
theorem ackDurable_of_synced (store : Store) (disk : Disk) (schedule : List Call)
    (hcalls : ∀ call ∈ schedule, call.inProcess = true) (hclean : disk.Clean)
    (hsynced : disk.synced = disk.bytes.length) : AckDurable store disk schedule := by
  rintro before call after rfl
  have hbefore : ∀ earlier ∈ before, earlier.inProcess = true := fun earlier hearlier =>
    hcalls earlier (List.mem_append_left _ hearlier)
  have hstart : Synced ⟨disk, Coordinator.init⟩ := fun _ => hsynced
  exact ackSound_of_synced ((Faithful.fresh hclean).run hbefore) (hstart.run hbefore)
    (hcalls call (List.mem_append_right _ List.mem_cons_self))

/-- The journal of an event that was published and leased. -/
def leasedJournal : Disk :=
  (System.run jsonStore {}
    [.recover none,
     .persist (snapshot "event-1" "key-1" .published none) none,
     .persist (snapshot "event-1" "key-1" .leased (some "worker-1")) none]).disk

/-- The event is settled, and the acknowledgement is lost. -/
def settleOnce : List Call :=
  [.recover none,
   .commitSettlementAndAck (snapshot "event-1" "key-1" .settledOk none)
     (ascii "$JS.ACK.stream") none false]

theorem ackDurable_leasedJournal :
    ((System.run jsonStore ⟨leasedJournal, Coordinator.init⟩ [.recover none]).outcome jsonStore
      (.commitSettlementAndAck (snapshot "event-1" "key-1" .settledOk none)
        (ascii "$JS.ACK.stream") none false)).ackFailed = true ∧
    AckDurable jsonStore leasedJournal settleOnce := by
  have hrun : ((System.run jsonStore ⟨leasedJournal, Coordinator.init⟩ [.recover none]).outcome
        jsonStore (.commitSettlementAndAck (snapshot "event-1" "key-1" .settledOk none)
          (ascii "$JS.ACK.stream") none false)).ackFailed = true ∧
      leasedJournal.Clean ∧ leasedJournal.synced = leasedJournal.bytes.length := by
    decide +kernel
  obtain ⟨hfailed, hclean, hsynced⟩ := hrun
  exact ⟨hfailed,
    ackDurable_of_synced jsonStore leasedJournal settleOnce (by decide) hclean hsynced⟩

/-- The same journal after the process died `written` bytes into the line of the
settlement. -/
def interruptedJournal (written : Nat) : Disk :=
  (System.run jsonStore {}
    [.recover none,
     .persist (snapshot "event-1" "key-1" .published none) none,
     .persist (snapshot "event-1" "key-1" .leased (some "worker-1")) none,
     .crash (snapshot "event-1" "key-1" .settledOk none) written]).disk

/-- A redelivery of the event. -/
def redelivery : Call :=
  .ackIfAlreadySettled (ascii "key-1") (ascii "$JS.ACK.stream") true

/-- Twelve bytes into the line: the next settlement is acknowledged, but its line
is glued to the torn one. The whole line, not synced: the redelivery is
acknowledged before the settlement is on stable storage. -/
theorem not_ackDurable_interruptedJournal :
    ¬AckDurable jsonStore (interruptedJournal 12) settleOnce ∧
    ¬AckDurable jsonStore (interruptedJournal 1000) [.recover none, redelivery] := by
  have hglued : ((System.run jsonStore ⟨interruptedJournal 12, Coordinator.init⟩
        [.recover none]).outcome jsonStore
          (.commitSettlementAndAck (snapshot "event-1" "key-1" .settledOk none)
            (ascii "$JS.ACK.stream") none false)).acked = true ∧
      ¬((System.run jsonStore ⟨interruptedJournal 12, Coordinator.init⟩
        [.recover none]).step jsonStore
          (.commitSettlementAndAck (snapshot "event-1" "key-1" .settledOk none)
            (ascii "$JS.ACK.stream") none false)).disk.HoldsSettled jsonStore (ascii "key-1") := by
    decide +kernel
  have hunsynced : ((System.run jsonStore ⟨interruptedJournal 1000, Coordinator.init⟩
        [.recover none]).outcome jsonStore redelivery).acked = true ∧
      ¬((System.run jsonStore ⟨interruptedJournal 1000, Coordinator.init⟩
        [.recover none]).step jsonStore redelivery).disk.HoldsSettled jsonStore (ascii "key-1") := by
    decide +kernel
  constructor
  · intro hdurable
    obtain ⟨key, hkey, hholds⟩ := (hdurable [.recover none] _ [] rfl).durable hglued.1
    obtain rfl : ascii "key-1" = key := Option.some.inj hkey
    exact hglued.2 hholds
  · intro hdurable
    obtain ⟨key, hkey, hholds⟩ := (hdurable [.recover none] redelivery [] rfl).durable hunsynced.1
    obtain rfl : ascii "key-1" = key := Option.some.inj hkey
    exact hunsynced.2 hholds

end Ubiq.Settlement
