import Ubiq.Settlement.CrashDurability

/-!
# Settled idempotency keys

A redelivery is recognised by its idempotency key, so a settled key must stay
settled, for the same event, in this process and in every later one.

The projection stores one record per event id, and `validate` lets a settled
event repeat its state. Nothing ties the repetition to the key under which the
event was settled: a second snapshot with another key moves the entry there, and
the first key is free again. `isSettled_put_iff` is this behaviour exactly.
Runs in which settled events keep their key are permanent: `SettledFor` is a
property that every accepted record preserves, so `Durable` carries it over
crashes and recoveries.
-/

namespace Ubiq.Settlement

open Foundation

variable {key id : Bytes} {store : Store} {system : System}

namespace Projection

/-- The key is settled, and the event `id` settled it. -/
def SettledFor (key id : Bytes) (projection : Projection) : Prop :=
  ∃ entry ∈ projection.entries, entry.idempotencyKey = key ∧ entry.eventId = id ∧
    entry.deliveryState.settled = true

/-- A record about a settled event carries the key under which it was settled. -/
def KeepsKey (projection : Projection) (record : Record) : Prop :=
  ∀ entry ∈ projection.entries, entry.eventId = record.eventId →
    entry.deliveryState.settled = true → record.idempotencyKey = entry.idempotencyKey

instance decidableKeepsKey (projection : Projection) (record : Record) :
    Decidable (projection.KeepsKey record) :=
  inferInstanceAs (Decidable (∀ entry ∈ projection.entries, _ → _ → _))

/-- A settled event is never moved out of its state. -/
theorem settled_of_allowed {source target : State} (h : allowed source target = true)
    (hsettled : source.settled = true) : target.settled = true := by
  cases source <;> cases target <;> revert h hsettled <;> decide

variable {projection : Projection} {record : Record}

/-- **Which records keep a settled key settled.** All but those about the very
event that was settled under another key. -/
theorem WellFormed.isSettled_put_iff (h : projection.WellFormed) {entry : Record}
    (hvalid : projection.validate record = .ok ()) (hentry : entry ∈ projection.entries)
    (hsettled : entry.deliveryState.settled = true) :
    (projection.put record).isSettled entry.idempotencyKey = true ↔
      (entry.eventId = record.eventId → record.idempotencyKey = entry.idempotencyKey) := by
  obtain ⟨-, -, hallowed⟩ := (h.validate_ok_iff record).mp hvalid
  rw [(h.apply (apply_of_validate hvalid)).isSettled_iff]
  constructor
  · rintro ⟨other, hother, hkey, -⟩ hevent
    rcases h.mem_put.mp hother with rfl | ⟨hmem, hdifferent⟩
    · exact hkey
    · -- keys are unique, so the old entry itself was kept
      rw [Keyed.eq_of_key_eq h.keys hmem hentry hkey] at hdifferent
      exact absurd hevent hdifferent
  · intro hkeep
    by_cases hevent : entry.eventId = record.eventId
    · exact ⟨record, h.mem_put.mpr (Or.inl rfl), hkeep hevent,
        settled_of_allowed (hallowed entry hentry hevent) hsettled⟩
    · exact ⟨entry, h.mem_put.mpr (Or.inr ⟨hentry, hevent⟩), rfl, hsettled⟩

/-- **Step lemma.** An accepted record that keeps keys leaves a settled key with
its event. -/
theorem WellFormed.settledFor_put (h : projection.WellFormed)
    (hvalid : projection.validate record = .ok ()) (hkeeps : projection.KeepsKey record)
    (hsettled : projection.SettledFor key id) :
    (projection.put record).SettledFor key id := by
  obtain ⟨-, -, hallowed⟩ := (h.validate_ok_iff record).mp hvalid
  obtain ⟨entry, hentry, rfl, rfl, hstate⟩ := hsettled
  by_cases hevent : entry.eventId = record.eventId
  · exact ⟨record, h.mem_put.mpr (Or.inl rfl), hkeeps entry hentry hevent hstate, hevent.symm,
      settled_of_allowed (hallowed entry hentry hevent) hstate⟩
  · exact ⟨entry, h.mem_put.mpr (Or.inr ⟨hentry, hevent⟩), rfl, rfl, hstate⟩

/-- A settled key is closed to every other event. -/
theorem WellFormed.eventId_of_settledFor (h : projection.WellFormed)
    (hsettled : projection.SettledFor key id) (hvalid : projection.validate record = .ok ())
    (hkey : record.idempotencyKey = key) :
    record.eventId = id := by
  obtain ⟨-, hkeys, -⟩ := (h.validate_ok_iff record).mp hvalid
  obtain ⟨entry, hentry, rfl, rfl, -⟩ := hsettled
  exact (hkeys entry hentry hkey.symm).symm

theorem WellFormed.isSettled_of_settledFor (h : projection.WellFormed)
    (hsettled : projection.SettledFor key id) :
    projection.isSettled key = true := by
  obtain ⟨entry, hentry, hkey, -, hstate⟩ := hsettled
  exact h.isSettled_iff.mpr ⟨entry, hentry, hkey, hstate⟩

end Projection

/-- A key that is settled in some ready state of the run is settled for good: in
every later recovered state it is settled, no record of another event is accepted
under it, and `ackIfAlreadySettled` acknowledges its redeliveries. -/
def PermanentSettlement (store : Store) (schedule : List Call) : Prop :=
  ∀ before middle after key, schedule = before ++ middle ++ after →
    (System.run store {} before).coordinator.Ready →
    (System.run store {} before).coordinator.isSettled key = true →
    (System.run store {} (before ++ middle)).coordinator.recovered = true →
    ∃ id, (System.run store {} before).coordinator.projection.SettledFor key id ∧
      (System.run store {} (before ++ middle)).coordinator.isSettled key = true ∧
      (∀ record, (System.run store {} (before ++ middle)).coordinator.projection.validate record =
          .ok () → record.idempotencyKey = key → record.eventId = id) ∧
      ((System.run store {} (before ++ middle)).coordinator.Ready →
        ∀ ackSubject published,
          (Coordinator.ackIfAlreadySettled
            (System.run store {} (before ++ middle)).coordinator key ackSubject published).1 =
              true)

/-- Records that are written about settled events carry the key of the event. -/
def KeepsKeys (store : Store) (system : System) (call : Call) : Prop :=
  ∀ snapshot, call.snapshot? = some snapshot → system.appending store call = true →
    system.coordinator.projection.KeepsKey (system.coordinator.stamp snapshot)

instance decidableKeepsKeys (store : Store) (system : System) (call : Call) :
    Decidable (KeepsKeys store system call) :=
  inferInstanceAs (Decidable (∀ snapshot ∈ call.snapshot?, _ → _))

/-- A call that writes has had its record validated. -/
theorem validate_of_appending {call : Call} {snapshot : Record}
    (hsnapshot : call.snapshot? = some snapshot) (happending : system.appending store call = true) :
    system.coordinator.projection.validate (system.coordinator.stamp snapshot) = .ok () := by
  have hwrites : system.writes store snapshot = true := by
    cases call <;> simp [Call.snapshot?, System.appending] at hsnapshot happending <;>
      first | (subst hsnapshot; exact happending) | (subst hsnapshot; exact happending.2)
  simp only [System.writes, decide_eq_true_eq] at hwrites
  exact hwrites.2.1

/-- The goal that `Durable` carries: a well-formed projection in which the key is
settled for the event. -/
def SettledGoal (key id : Bytes) (projection : Projection) : Prop :=
  projection.WellFormed ∧ projection.SettledFor key id

theorem preserves_settledGoal {call : Call} (h : KeepsKeys store system call) :
    Preserves store (SettledGoal key id) system call := by
  intro snapshot hsnapshot happending hgoal
  have hvalid := validate_of_appending hsnapshot happending
  exact ⟨hgoal.1.apply (Projection.apply_of_validate hvalid),
    hgoal.1.settledFor_put hvalid (h snapshot hsnapshot happending) hgoal.2⟩

/-- In a ready state of a durable run the live projection is the journal's, so
what is settled there is settled in the journal. -/
theorem settledGoal_of_ready {kept : List Record}
    (hdurable : Durable store (fun _ => True) system kept) (hready : system.coordinator.Ready)
    (hsettled : system.coordinator.isSettled key = true) :
    ∃ id, system.coordinator.projection.SettledFor key id ∧
      Durable store (SettledGoal key id) system kept := by
  obtain ⟨records, projection, hholds, hstep, -, -⟩ := hdurable
  obtain ⟨hsound, hrecovered⟩ := Coordinator.requireReady_ok_iff.mp hready
  obtain ⟨rfl, -⟩ := hstep.ready hrecovered hsound
  have hformed := Projection.wellFormed_init.applyAll hholds.applied
  obtain ⟨entry, hentry, hkey, hstate⟩ := hformed.isSettled_iff.mp hsettled
  have hfor : system.coordinator.projection.SettledFor key entry.eventId :=
    ⟨entry, hentry, hkey, rfl, hstate⟩
  exact ⟨entry.eventId, hfor, records, _, hholds, hstep, ⟨hformed, hfor⟩, fun _ => ⟨hformed, hfor⟩⟩

/-- **Settlement is permanent** in every run whose writes about settled events
keep their key and never go behind a torn line. -/
theorem permanentSettlement_of_keepsKeys (store : Store) (schedule : List Call)
    (hclean : Execution.Along (System.step store) (AppendsClean store) {} schedule)
    (hkeys : Execution.Along (System.step store) (KeepsKeys store) {} schedule) :
    PermanentSettlement store schedule := by
  rintro before middle after key rfl hready hsettled hrecovered
  simp only [Execution.along_append] at hclean hkeys
  obtain ⟨id, hfor, hgoal⟩ :=
    settledGoal_of_ready (durable_run_empty hclean.1.1) hready hsettled
  have hlater := hgoal.run hclean.1.2 (hkeys.1.2.imp fun _ _ => preserves_settledGoal)
  have hrun : (System.run store {} before).run store middle =
      System.run store {} (before ++ middle) := (Execution.run_append _ _ _ _).symm
  change Durable store (SettledGoal key id) ((System.run store {} before).run store middle) _
    at hlater
  rw [hrun] at hlater
  -- from here on only the live projection of the later state matters
  obtain ⟨-, -, -, -, -, hlive⟩ := hlater
  obtain ⟨hformed, hstill⟩ := hlive hrecovered
  have hisSettled := hformed.isSettled_of_settledFor hstill
  refine ⟨id, hfor, hisSettled, fun record => hformed.eventId_of_settledFor hstill, ?_⟩
  intro hlaterReady ackSubject published
  unfold Coordinator.ackIfAlreadySettled
  rw [hlaterReady]
  simp [Coordinator.isSettled, hisSettled]

/-- An event is published, leased and settled; its settlement is repeated under
the same key, and a new process recovers. -/
def repeatedSettlement : List Call :=
  [.recover none,
   .persist (snapshot "event-1" "key-1" .published none) none,
   .persist (snapshot "event-1" "key-1" .leased (some "worker-1")) none,
   .commitSettlementAndAck (snapshot "event-1" "key-1" .settledOk none)
     (ascii "$JS.ACK.stream") none true,
   .persist (snapshot "event-1" "key-1" .settledOk none) none,
   .restart,
   .recover none]

theorem permanentSettlement_repeatedSettlement :
    (System.run jsonStore {} (repeatedSettlement.take 4)).coordinator.isSettled (ascii "key-1") =
      true ∧
    PermanentSettlement jsonStore repeatedSettlement := by
  -- one evaluation of the run for all facts about it
  have hrun : (System.run jsonStore {} (repeatedSettlement.take 4)).coordinator.isSettled
        (ascii "key-1") = true ∧
      Execution.Along (System.step jsonStore) (AppendsClean jsonStore) {} repeatedSettlement ∧
      Execution.Along (System.step jsonStore) (KeepsKeys jsonStore) {} repeatedSettlement := by
    decide +kernel
  obtain ⟨hsettled, hclean, hkeys⟩ := hrun
  exact ⟨hsettled, permanentSettlement_of_keepsKeys jsonStore repeatedSettlement hclean hkeys⟩

/-- The settled event is settled again under another key. -/
def rekeyedSettlement : List Call :=
  [.recover none,
   .persist (snapshot "event-1" "key-1" .published none) none,
   .persist (snapshot "event-1" "key-1" .leased (some "worker-1")) none,
   .commitSettlementAndAck (snapshot "event-1" "key-1" .settledOk none)
     (ascii "$JS.ACK.stream") none true,
   .persist (snapshot "event-1" "key-2" .settledOk none) none]

/-- The first key is no longer settled, and the next event that uses it is
accepted: its business effect runs a second time. -/
theorem not_permanentSettlement_rekeyedSettlement :
    Execution.Along (System.step jsonStore) (Ordinary jsonStore) {} rekeyedSettlement ∧
    Execution.Along (System.step jsonStore) (AppendsClean jsonStore) {} rekeyedSettlement ∧
    (System.run jsonStore {} (rekeyedSettlement.take 4)).coordinator.isSettled (ascii "key-1") =
      true ∧
    (System.run jsonStore {} rekeyedSettlement).coordinator.isSettled (ascii "key-1") = false ∧
    (System.run jsonStore {} rekeyedSettlement).writes jsonStore
      (snapshot "event-2" "key-1" .published none) = true ∧
    ¬PermanentSettlement jsonStore rekeyedSettlement := by
  have hrun : Execution.Along (System.step jsonStore) (Ordinary jsonStore) {} rekeyedSettlement ∧
      Execution.Along (System.step jsonStore) (AppendsClean jsonStore) {} rekeyedSettlement ∧
      (System.run jsonStore {} (rekeyedSettlement.take 4)).coordinator.isSettled (ascii "key-1") =
        true ∧
      (System.run jsonStore {} rekeyedSettlement).coordinator.isSettled (ascii "key-1") = false ∧
      (System.run jsonStore {} rekeyedSettlement).writes jsonStore
        (snapshot "event-2" "key-1" .published none) = true ∧
      (System.run jsonStore {} (rekeyedSettlement.take 4)).coordinator.Ready ∧
      (System.run jsonStore {} rekeyedSettlement).coordinator.recovered = true := by
    decide +kernel
  obtain ⟨hordinary, hclean, hbefore, hafter, hwrites, hready, hrecovered⟩ := hrun
  refine ⟨hordinary, hclean, hbefore, hafter, hwrites, ?_⟩
  intro hpermanent
  obtain ⟨id, -, hstill, -⟩ := hpermanent (rekeyedSettlement.take 4) (rekeyedSettlement.drop 4) []
    (ascii "key-1") rfl hready hbefore hrecovered
  rw [List.take_append_drop, hafter] at hstill
  cases hstill

end Ubiq.Settlement
