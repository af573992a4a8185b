import Ubiq.Broker.Messages

/-!
# The Kafka consumer

The loop of `KafkaTransport.Subscribe` on one partition. `FetchMessage` returns the
messages in the order of their offsets; committing a message marks it and all earlier
ones as consumed, and a later loop starts behind the committed offset.

The loop commits a message when its handler succeeds, and when the subscription is for
another event. It goes on after a handler has failed, and then the next commit also
covers the failed message. `committedHandled_iff` says that this is the only way in
which a message is committed without having been handled.
-/

namespace Ubiq.Broker.Kafka

open Foundation
open Control (Json)

/-- A subscription of an event on a partition. -/
structure Partition where
  json : Json
  event : Bytes
  /-- The values of the messages; the offset is the position. -/
  messages : List Bytes

/-- The message at an offset, as the subscription reads it. -/
def Partition.read (partition : Partition) (offset : Nat) : Option Reading :=
  partition.messages[offset]?.map (reading partition.json partition.event)

/-- The message at the offset is for the subscription. -/
def Partition.Matching (partition : Partition) (offset : Nat) : Prop :=
  ∃ envelope, partition.read offset = some (.matching envelope)

/-- The loop of the subscription and the state of its consumer group. -/
structure Consumer where
  /-- The offset of the next message that `FetchMessage` returns. -/
  position : Nat := 0
  /-- The offset up to which the group has consumed the partition. -/
  committed : Nat := 0
  /-- The offsets on which a handler has returned nil. -/
  handled : List Nat := []
  /-- The offsets on which the handler of this loop has returned an error. -/
  failed : List Nat := []
deriving DecidableEq, Repr

/-- One iteration of the loop with the result of the handler, if it is called, and of the
commit, if there is one; or a new loop. -/
inductive Action
  | next (handlerOk commitOk : Bool)
  | subscribe
deriving DecidableEq, Repr

namespace Consumer

/-- `_ = r.CommitMessages(subctx, msg)` for the message before the position. -/
def commit (consumer : Consumer) (commitOk : Bool) : Consumer :=
  if commitOk then { consumer with committed := consumer.position } else consumer

/-- One step of the consumer. -/
def step (partition : Partition) (consumer : Consumer) : Action → Consumer
  | .subscribe => { consumer with position := consumer.committed, failed := [] }
  | .next handlerOk commitOk =>
      let fetched := { consumer with position := consumer.position + 1 }
      match partition.read consumer.position with
      -- `FetchMessage` waits for a message
      | none => consumer
      | some .undecodable => fetched
      | some (.filtered _) => fetched.commit commitOk
      | some (.matching _) =>
          if handlerOk then
            { fetched with handled := consumer.handled ++ [consumer.position] }.commit commitOk
          else { fetched with failed := consumer.failed ++ [consumer.position] }

/-- The step commits the message that it fetches. -/
def commits (partition : Partition) (consumer : Consumer) : Action → Bool
  | .subscribe => false
  | .next handlerOk commitOk =>
      match partition.read consumer.position with
      | none | some .undecodable => false
      | some (.filtered _) => commitOk
      | some (.matching _) => handlerOk && commitOk

/-- Every matching message below the committed offset has been handled. -/
def CommittedHandled (partition : Partition) (consumer : Consumer) : Prop :=
  ∀ offset, offset < consumer.committed → partition.Matching offset → offset ∈ consumer.handled

/-- No message is committed behind one on which the handler of this loop has failed, unless
an earlier delivery of that one was handled. -/
def CommitsBehindNoFailure (partition : Partition) (consumer : Consumer) (action : Action) :
    Prop :=
  consumer.commits partition action = true →
    ∀ offset ∈ consumer.failed, offset ∈ consumer.handled

/-- What a step can do. -/
inductive Effect (partition : Partition) (consumer : Consumer) (action : Action) : Consumer → Prop
  | waits (hcommits : consumer.commits partition action = false) :
      Effect partition consumer action consumer
  | restarts (hcommits : consumer.commits partition action = false) :
      Effect partition consumer action
        { consumer with position := consumer.committed, failed := [] }
  | passes (handled failed : List Nat) (hcommits : consumer.commits partition action = false)
      (hhandled : handled = consumer.handled ∨ handled = consumer.handled ++ [consumer.position])
      (hfailed : failed = consumer.failed ∨
        failed = consumer.failed ++ [consumer.position] ∧ partition.Matching consumer.position)
      (hcovered : partition.Matching consumer.position →
        consumer.position ∈ handled ∨ consumer.position ∈ failed) :
      Effect partition consumer action ⟨consumer.position + 1, consumer.committed, handled, failed⟩
  | commits (handled : List Nat) (hcommits : consumer.commits partition action = true)
      (hhandled : handled = consumer.handled ∨ handled = consumer.handled ++ [consumer.position])
      (hcovered : partition.Matching consumer.position → consumer.position ∈ handled) :
      Effect partition consumer action
        ⟨consumer.position + 1, consumer.position + 1, handled, consumer.failed⟩

section Effects

variable {partition : Partition} {consumer : Consumer}

theorem effect_step (action : Action) :
    Effect partition consumer action (consumer.step partition action) := by
  cases action with
  | subscribe => exact .restarts rfl
  | next handlerOk commitOk =>
      unfold step
      cases hread : partition.read consumer.position with
      | none => exact .waits (by simp [commits, hread])
      | some message =>
          cases message with
          | undecodable =>
              refine .passes _ _ (by simp [commits, hread]) (Or.inl rfl) (Or.inl rfl) ?_
              rintro ⟨envelope, hmatching⟩
              rw [hread] at hmatching
              cases hmatching
          | filtered envelope =>
              have hnot : ¬partition.Matching consumer.position := by
                rintro ⟨other, hmatching⟩
                rw [hread] at hmatching
                cases hmatching
              cases commitOk with
              | true =>
                  exact .commits _ (by simp [commits, hread]) (Or.inl rfl) fun h => absurd h hnot
              | false =>
                  exact .passes _ _ (by simp [commits, hread]) (Or.inl rfl) (Or.inl rfl)
                    fun h => absurd h hnot
          | matching envelope =>
              have hlast : ∀ offsets : List Nat, consumer.position ∈ offsets ++ [consumer.position] :=
                fun offsets => List.mem_append_right _ List.mem_cons_self
              cases handlerOk with
              | false =>
                  exact .passes _ _ (by simp [commits, hread]) (Or.inl rfl)
                    (Or.inr ⟨rfl, envelope, hread⟩) fun _ => Or.inr (hlast _)
              | true =>
                  cases commitOk with
                  | true =>
                      exact .commits _ (by simp [commits, hread]) (Or.inr rfl) fun _ => hlast _
                  | false =>
                      exact .passes _ _ (by simp [commits, hread]) (Or.inr rfl) (Or.inl rfl)
                        fun _ => Or.inl (hlast _)

end Effects

/-! ## Runs -/

/-- What holds of the offsets in every run. -/
structure Consistent (partition : Partition) (consumer : Consumer) : Prop where
  committed_le : consumer.committed ≤ consumer.position
  fetched : ∀ offset, consumer.committed ≤ offset → offset < consumer.position →
    partition.Matching offset → offset ∈ consumer.handled ∨ offset ∈ consumer.failed
  failed : ∀ offset ∈ consumer.failed, offset < consumer.position ∧ partition.Matching offset

theorem consistent_start (partition : Partition) : Consistent partition {} :=
  ⟨le_rfl, fun _ _ h => absurd h (Nat.not_lt_zero _), fun _ h => absurd h List.not_mem_nil⟩

section Steps

variable {partition : Partition} {consumer next : Consumer} {action : Action}

theorem mem_of_kept {kept before : List Nat} {offset : Nat}
    (h : kept = before ∨ kept = before ++ [consumer.position]) (hmem : offset ∈ before) :
    offset ∈ kept := by
  rcases h with rfl | rfl
  · exact hmem
  · exact List.mem_append_left _ hmem

theorem Effect.consistent (heffect : Effect partition consumer action next)
    (h : Consistent partition consumer) : Consistent partition next := by
  obtain ⟨hle, hfetched, hfailedBefore⟩ := h
  have hstill : ∀ offset ∈ consumer.failed,
      offset < consumer.position + 1 ∧ partition.Matching offset := fun offset hmem =>
    ⟨Nat.lt_succ_of_lt (hfailedBefore offset hmem).1, (hfailedBefore offset hmem).2⟩
  cases heffect with
  | waits => exact ⟨hle, hfetched, hfailedBefore⟩
  | restarts =>
      exact ⟨le_rfl, fun offset hlow hhigh => absurd hhigh (not_lt.mpr hlow),
        List.forall_mem_nil _⟩
  | passes handled failed hcommits hhandled hfailed hcovered =>
      have hkept : failed = consumer.failed ∨ failed = consumer.failed ++ [consumer.position] :=
        hfailed.imp_right And.left
      refine ⟨Nat.le_succ_of_le hle, fun offset hlow hhigh hmatching => ?_, ?_⟩
      · rcases Nat.lt_succ_iff_lt_or_eq.mp hhigh with hold | rfl
        · exact (hfetched offset hlow hold hmatching).imp (mem_of_kept hhandled)
            (mem_of_kept hkept)
        · exact hcovered hmatching
      · rcases hfailed with rfl | ⟨rfl, hmatching⟩
        · exact hstill
        · exact List.forall_mem_append.mpr
            ⟨hstill, List.forall_mem_singleton.mpr ⟨Nat.lt_succ_self _, hmatching⟩⟩
  | commits handled hcommits hhandled hcovered =>
      exact ⟨le_rfl, fun offset hlow hhigh => absurd hhigh (not_lt.mpr hlow), hstill⟩

/-- **One step keeps the committed messages handled exactly when it does not commit behind
a failure.** -/
theorem Effect.committedHandled_step_iff (heffect : Effect partition consumer action next)
    (hconsistent : Consistent partition consumer) (h : consumer.CommittedHandled partition) :
    next.CommittedHandled partition ↔ consumer.CommitsBehindNoFailure partition action := by
  cases heffect with
  | waits hcommits => exact iff_of_true h fun htrue => by rw [hcommits] at htrue; cases htrue
  | restarts hcommits => exact iff_of_true h fun htrue => by rw [hcommits] at htrue; cases htrue
  | passes handled failed hcommits hhandled hfailed hcovered =>
      refine iff_of_true (fun offset hlt hmatching => ?_) fun htrue => by
        rw [hcommits] at htrue
        cases htrue
      exact mem_of_kept hhandled (h offset hlt hmatching)
  | commits handled hcommits hhandled hcovered =>
      constructor
      · -- a failed message is below the new commit, and is not the one just handled
        intro hnext _ offset hmem
        obtain ⟨hlt, hmatching⟩ := hconsistent.failed offset hmem
        have hin := hnext offset (Nat.lt_succ_of_lt hlt) hmatching
        rcases hhandled with rfl | rfl
        · exact hin
        · rcases List.mem_append.mp hin with hold | hnew
          · exact hold
          · exact absurd (List.mem_singleton.mp hnew) (by omega)
      · intro hguard offset hlt hmatching
        rcases Nat.lt_succ_iff_lt_or_eq.mp hlt with hold | rfl
        · refine mem_of_kept hhandled ?_
          by_cases hcommitted : offset < consumer.committed
          · exact h offset hcommitted hmatching
          · rcases hconsistent.fetched offset (not_lt.mp hcommitted) hold hmatching with
              hdone | hfailed
            · exact hdone
            · exact hguard hcommits offset hfailed
        · exact hcovered hmatching

/-- A step does not go back behind the committed offset. -/
theorem Effect.lost (heffect : Effect partition consumer action next)
    (hconsistent : Consistent partition consumer) {offset : Nat}
    (hcommitted : offset < consumer.committed) (hlost : offset ∉ consumer.handled) :
    offset < next.committed ∧ offset ∉ next.handled := by
  have hlt : offset < consumer.position := hcommitted.trans_le hconsistent.committed_le
  have hkept : ∀ handled : List Nat,
      handled = consumer.handled ∨ handled = consumer.handled ++ [consumer.position] →
        offset ∉ handled := by
    rintro handled (rfl | rfl) hmem
    · exact hlost hmem
    · rcases List.mem_append.mp hmem with hold | hnew
      · exact hlost hold
      · exact absurd (List.mem_singleton.mp hnew) hlt.ne
  cases heffect with
  | waits => exact ⟨hcommitted, hlost⟩
  | restarts => exact ⟨hcommitted, hlost⟩
  | passes handled failed hcommits hhandled => exact ⟨hcommitted, hkept handled hhandled⟩
  | commits handled hcommits hhandled =>
      exact ⟨Nat.lt_succ_of_lt hlt, hkept handled hhandled⟩

end Steps

/-- **Handled before committed.** The committed offset stays behind handled messages in
every state of a run exactly when no step of the run commits a message behind one on which
the handler of the same loop has failed. -/
theorem committedHandled_iff (partition : Partition) (actions : List Action) :
    Execution.Along (step partition)
        (fun consumer action => (consumer.step partition action).CommittedHandled partition)
        {} actions ↔
      Execution.Along (step partition) (CommitsBehindNoFailure partition) {} actions := by
  refine Execution.along_iff (motive := fun consumer =>
      Consistent partition consumer ∧ consumer.CommittedHandled partition)
    (fun consumer action h hnext => ?_) (fun consumer action h => ?_) ?_ actions
  · exact ⟨(effect_step action).consistent h.1, hnext⟩
  · exact (effect_step action).committedHandled_step_iff h.1 h.2
  · exact ⟨consistent_start partition, fun offset hlt => absurd hlt (Nat.not_lt_zero offset)⟩

/-- Two orders on a partition. -/
def twoOrders : Partition where
  json := orderCodec
  event := everyEvent
  messages := [orderJson "create", orderJson "cancel"]

/-- The handler fails on the first order and succeeds on the second, whose commit covers
both. -/
theorem not_committedHandled_failureThenSuccess :
    ¬Execution.Along (step twoOrders)
      (fun consumer action => (consumer.step twoOrders action).CommittedHandled twoOrders)
      {} [.next false true, .next true true] := by
  rintro ⟨-, hcommitted, -⟩
  have hmatching : twoOrders.Matching 0 := ⟨order "create", by decide +kernel⟩
  have hmem := hcommitted 0 (by decide +kernel) hmatching
  revert hmem
  decide +kernel

/-- **A message that is committed before it was handled is lost**: no later step of the run, and no
restart, has it handled. -/
theorem not_mem_handled_run (partition : Partition) {offset : Nat} (before later : List Action)
    (hcommitted : offset < (Execution.run (step partition) {} before).committed)
    (hlost : offset ∉ (Execution.run (step partition) {} before).handled) :
    offset ∉ (Execution.run (step partition) {} (before ++ later)).handled := by
  have hconsistent := Execution.invariant_run_of_step (motive := Consistent partition)
    (fun _ action h => (effect_step action).consistent h) (consistent_start partition) before
  rw [Execution.run_append]
  generalize Execution.run (step partition) {} before = consumer at hcommitted hlost hconsistent
  induction later generalizing consumer with
  | nil => exact hlost
  | cons action rest ih =>
      have hnext := (effect_step action).lost hconsistent hcommitted hlost
      exact ih _ hnext.1 hnext.2 ((effect_step action).consistent hconsistent)

/-- The first of two orders is lost when the second one is committed. -/
theorem not_mem_handled_twoOrders :
    0 ∉ (Execution.run (step twoOrders) {}
      ([.next false true, .next true true] ++ [.next true true])).handled :=
  not_mem_handled_run twoOrders _ _ (by decide +kernel) (by decide +kernel)

end Consumer

end Ubiq.Broker.Kafka
