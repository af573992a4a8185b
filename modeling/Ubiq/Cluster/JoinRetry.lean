import Ubiq.Cluster.Membership

/-!
# Retrying `Join`

`Join`, `Remove` and `Heartbeat` on the leader, one call after the other, where every operation on
Raft either takes effect or fails without effect. `Join` returns at once when the configuration
has the server already; then the node is in the state machine only if it was there before.

* `execute_of_member`: the early return changes nothing.
* `execute_of_not_member`: otherwise `Join` fails, or adds the server and the node.
* `retrySafe_iff`: the runs in which `Join` returns nil only for registered nodes.
-/

namespace Ubiq.Cluster

open Foundation

/-- The operations on Raft. -/
inductive Operation
  | getConfiguration
  | removeServer (id : Bytes)
  | addVoter
  | apply
deriving DecidableEq, Repr

/-- The operation that a call performs next. The loop of `Join` performs it only for a server with
the id or the address. -/
def Task.operation : Task → Option Operation
  | .join _ _ => some .getConfiguration
  | .replaceServers _ _ servers => servers.head?.map fun server => .removeServer server.id
  | .addVoter _ _ => some .addVoter
  | .remove id => some (.removeServer id)
  | .beat _ _ _ | .delete _ | .mark _ _ _ => some .apply
  | .reap _ => none

/-- A call of `Join`, `Remove` or `Heartbeat`, with the operations that fail during the call and
the clock of `Join`. -/
structure Attempt where
  call : Call
  failures : List Operation := []
  now : Int := 0
  membership : ∀ maxAge, call ≠ .reapStale maxAge

namespace Attempt

/-- An operation takes effect if it does not fail. -/
def choice (attempt : Attempt) (task : Task) : Choice :=
  let ok := task.operation.all fun operation => operation ∉ attempt.failures
  { now := attempt.now, applied := ok, ok := ok }

end Attempt

/-- Whether a call returns nil if this is its last operation. -/
def Task.returnsNil (task : Task) (choice : Choice) : Bool :=
  match task with
  | .replaceServers id address (server :: _) =>
      decide (server.id = id ∧ server.address = address) || choice.ok
  | _ => choice.ok

/-- The operations of a call up to its return; the result is whether it returns nil. -/
def execute (attempt : Attempt) : Nat → Store → Task → Store × Option Bool
  | 0, store, _ => (store, none)
  | fuel + 1, store, task =>
      match perform store task (attempt.choice task) with
      | (next, none) => (next, some (task.returnsNil (attempt.choice task)))
      | (next, some later) => execute attempt fuel next later

/-- A whole call. -/
def Attempt.complete (attempt : Attempt) (store : Store) : Store × Option Bool :=
  execute attempt (store.servers.length + 4) store attempt.call.task

/-- The state after a call. -/
def Attempt.after (store : Store) (attempt : Attempt) : Store :=
  (attempt.complete store).1

/-- The state machine has a node with this id and address. -/
def Store.Knows (store : Store) (id address : Bytes) : Prop :=
  ∃ node, store.copyState.nodes.lookup id = some node ∧ node.address = address

/-- The node is in the configuration and in the state machine. -/
def Store.Registers (store : Store) (id address : Bytes) : Prop :=
  ⟨id, address⟩ ∈ store.servers ∧ store.Knows id address

/-- A `Join` that returns nil has registered its node. -/
def JoinRegisters (store : Store) (attempt : Attempt) : Prop :=
  ∀ id address, attempt.call = .join id address → (attempt.complete store).2 = some true →
    (attempt.after store).Registers id address

/-- The configuration of a new cluster has only the server that starts it. -/
def bootstrapped (self : Server) : Store where
  servers := [self]

/-- Every `Join` of a run registers its node if it returns nil. -/
def RetrySafe (self : Server) (attempts : List Attempt) : Prop :=
  Execution.Along Attempt.after JoinRegisters (bootstrapped self) attempts

/-- The server has the id or the address. -/
def Server.Matches (server : Server) (id address : Bytes) : Prop :=
  server.id = id ∨ server.address = address

/-- An operation of a `Join` behind its read of the configuration fails. -/
def Attempt.Fails (attempt : Attempt) (id address : Bytes) (servers : List Server) : Prop :=
  (∃ server ∈ servers, server.Matches id address ∧
    Operation.removeServer server.id ∈ attempt.failures) ∨
  Operation.addVoter ∈ attempt.failures ∨ Operation.apply ∈ attempt.failures

/-- What a `Join` needs whose read of the configuration succeeds: for a server of the configuration
the node is known, and otherwise the JSON of the node keeps its strings, or the call fails. -/
def Prepared (store : Store) (attempt : Attempt) : Prop :=
  ∀ id address, attempt.call = .join id address →
    Operation.getConfiguration ∉ attempt.failures →
    (⟨id, address⟩ ∈ store.servers → store.Knows id address) ∧
    (⟨id, address⟩ ∉ store.servers →
      Utf8.valid id = true ∧ Utf8.valid address = true ∨ attempt.Fails id address store.servers)

/-! ## One `Join` -/

variable {task : Task}

section Join

variable (attempt : Attempt) (id address : Bytes) {servers : List Server}

theorem choice_of_operation {operation : Operation} (h : task.operation = some operation) :
    attempt.choice task =
      { now := attempt.now
        applied := decide (operation ∉ attempt.failures)
        ok := decide (operation ∉ attempt.failures) } := by
  simp [Attempt.choice, h]

theorem execute_beat (fuel : Nat) (store : Store) (lastHeartbeatMs : Int) :
    execute attempt (fuel + 1) store (.beat id address lastHeartbeatMs) =
      (store.append (.beat ⟨id, address, true, lastHeartbeatMs⟩)
          (decide (Operation.apply ∉ attempt.failures)),
        some (decide (Operation.apply ∉ attempt.failures))) := by
  have hchoice : attempt.choice (.beat id address lastHeartbeatMs) = _ :=
    choice_of_operation attempt rfl
  simp only [execute, perform, Task.returnsNil, hchoice]

/-- The early return of `Join`. -/
theorem execute_of_member {store : Store} {fuel : Nat} (hfuel : servers.length ≤ fuel)
    (hmember : ⟨id, address⟩ ∈ servers)
    (honly : ∀ server ∈ servers, server.Matches id address → server = ⟨id, address⟩) :
    execute attempt fuel store (.replaceServers id address servers) = (store, some true) := by
  induction servers generalizing fuel with
  | nil => exact absurd hmember List.not_mem_nil
  | cons server rest ih =>
      obtain ⟨fuel, rfl⟩ : ∃ less, fuel = less + 1 :=
        Nat.exists_eq_add_one.mpr (Nat.lt_of_lt_of_le (Nat.succ_pos _) hfuel)
      by_cases hmatches : server.Matches id address
      · obtain rfl := honly server List.mem_cons_self hmatches
        simp [execute, perform, Task.returnsNil]
      · obtain ⟨hid, haddress⟩ := not_or.mp hmatches
        have hrest : ⟨id, address⟩ ∈ rest := by
          rcases List.mem_cons.mp hmember with heq | hrest
          · exact absurd (congrArg Server.id heq.symm) hid
          · exact hrest
        simp only [execute, perform, hid, haddress, false_and, or_self, if_false]
        exact ih (Nat.le_of_succ_le_succ hfuel) hrest fun other hother =>
          honly other (List.mem_cons_of_mem _ hother)

/-- The call has failed, or it has added the server and the node. -/
def Settled (attempt : Attempt) (id address : Bytes) (servers : List Server) (store : Store)
    (result : Store × Option Bool) : Prop :=
  (attempt.Fails id address servers ∧ result.2 = some false) ∨
    (¬attempt.Fails id address servers ∧ result.2 = some true ∧
      ⟨id, address⟩ ∈ result.1.servers ∧
      ∃ lastHeartbeatMs, result.1.log =
        store.log ++ [(Entry.beat ⟨id, address, true, lastHeartbeatMs⟩).decoded])

theorem mem_addVoter (store : Store) : ⟨id, address⟩ ∈ (store.addVoter id address true).servers := by
  unfold Store.addVoter
  by_cases hany : store.servers.any (fun server => server.id = id) = true
  · obtain ⟨server, hserver, hid⟩ := List.any_eq_true.mp hany
    simp only [if_true, if_pos hany, List.mem_map]
    exact ⟨server, hserver, if_pos (of_decide_eq_true hid)⟩
  · simp [hany]

/-- The end of `Join`, behind the loop. -/
theorem settled_addVoter (fuel : Nat) (store : Store) :
    Settled attempt id address [] store
      (execute attempt (fuel + 2) store (.addVoter id address)) := by
  have hchoice : attempt.choice (.addVoter id address) = _ := choice_of_operation attempt rfl
  by_cases hadd : Operation.addVoter ∈ attempt.failures
  · refine Or.inl ⟨Or.inr (Or.inl hadd), ?_⟩
    simp [execute, perform, hchoice, hadd, Task.returnsNil]
  · have hexecute : execute attempt (fuel + 2) store (.addVoter id address) =
        execute attempt (fuel + 1) (store.addVoter id address true)
          (.beat id address (unixMilli attempt.now)) := by
      simp only [execute, perform, hchoice, hadd, not_false_eq_true, decide_true, if_true]
    rw [hexecute, execute_beat]
    by_cases happly : Operation.apply ∈ attempt.failures
    · refine Or.inl ⟨Or.inr (Or.inr happly), ?_⟩
      simp [happly]
    · refine Or.inr ⟨?_, by simp [happly], ?_, unixMilli attempt.now, ?_⟩
      · rintro (⟨server, hserver, -⟩ | hfails | hfails)
        · exact absurd hserver List.not_mem_nil
        · exact hadd hfails
        · exact happly hfails
      · simpa [happly, Store.append] using mem_addVoter id address store
      · simp [happly, Store.append, Store.addVoter]

theorem fails_cons_iff {server : Server} :
    attempt.Fails id address (server :: servers) ↔
      (server.Matches id address ∧ Operation.removeServer server.id ∈ attempt.failures) ∨
        attempt.Fails id address servers := by
  simp [Attempt.Fails, or_assoc]

/-- **`Join` without early return** fails, or adds the server and the node. -/
theorem execute_of_not_member {store : Store} {fuel : Nat} (hfuel : servers.length + 3 ≤ fuel)
    (hnot : ⟨id, address⟩ ∉ servers) :
    Settled attempt id address servers store
      (execute attempt fuel store (.replaceServers id address servers)) := by
  induction servers generalizing store fuel with
  | nil =>
      obtain ⟨fuel, rfl⟩ := Nat.exists_eq_add_of_le' hfuel
      exact settled_addVoter attempt id address fuel store
  | cons server rest ih =>
      obtain ⟨fuel, rfl⟩ : ∃ less, fuel = less + 1 :=
        Nat.exists_eq_add_one.mpr (Nat.lt_of_lt_of_le (Nat.succ_pos _) hfuel)
      have hless : rest.length + 3 ≤ fuel := by
        rw [List.length_cons] at hfuel
        omega
      obtain ⟨hother, hrest⟩ := not_or.mp (mt List.mem_cons.mpr hnot)
      have hpair : ¬(server.id = id ∧ server.address = address) := by
        rintro ⟨rfl, rfl⟩
        exact hother rfl
      have hchoice : attempt.choice (.replaceServers id address (server :: rest)) = _ :=
        choice_of_operation attempt rfl
      by_cases hmatches : server.Matches id address
      · by_cases hremove : Operation.removeServer server.id ∈ attempt.failures
        · refine Or.inl ⟨(fails_cons_iff attempt id address).mpr (Or.inl ⟨hmatches, hremove⟩), ?_⟩
          simp only [execute, perform, if_neg hpair, if_pos (show _ ∨ _ from hmatches), hchoice]
          simp [hremove, Task.returnsNil, hpair]
        · have hexecute : execute attempt (fuel + 1) store
              (.replaceServers id address (server :: rest)) =
                execute attempt fuel (store.removeServer server.id true)
                  (.replaceServers id address rest) := by
            simp only [execute, perform, if_neg hpair, if_pos (show _ ∨ _ from hmatches), hchoice]
            simp [hremove]
          rw [hexecute]
          have hlog : (store.removeServer server.id true).log = store.log := rfl
          have hlater : Settled attempt id address rest (store.removeServer server.id true) _ :=
            ih hless hrest
          unfold Settled at hlater ⊢
          rw [hlog] at hlater
          simpa only [fails_cons_iff, hremove, and_false, false_or] using hlater
      · have hexecute : execute attempt (fuel + 1) store
            (.replaceServers id address (server :: rest)) =
              execute attempt fuel store (.replaceServers id address rest) := by
          simp only [execute, perform, if_neg hpair]
          rw [if_neg (show ¬(_ ∨ _) from hmatches)]
        rw [hexecute]
        have hlater : Settled attempt id address rest store _ := ih hless hrest
        unfold Settled at hlater ⊢
        simpa only [fails_cons_iff, hmatches, false_and, false_or] using hlater

end Join

/-! ## What the calls keep -/

/-- Two servers differ in id and address, and the ids of the nodes have been read from JSON. -/
structure Store.WellFormed (store : Store) : Prop where
  servers : store.servers.Pairwise fun first second =>
    first.id ≠ second.id ∧ first.address ≠ second.address
  nodes : ∀ id node, store.copyState.nodes.lookup id = some node → Utf8.valid id = true

/-- What the loop of `Join` has achieved: the servers with the id or the address are those that it
has not come to. -/
def Ready (store : Store) : Task → Prop
  | .replaceServers id address rest =>
      ∀ server ∈ store.servers, server.Matches id address → server ∈ rest
  | .addVoter id address => ∀ server ∈ store.servers, ¬server.Matches id address
  | _ => True

section Invariant

variable {store : Store} (h : store.WellFormed) {id address : Bytes}

include h

theorem Store.WellFormed.append (entry : Entry) (applied : Bool) :
    (store.append entry applied).WellFormed := by
  cases applied with
  | false => exact h
  | true =>
      refine ⟨h.servers, fun id node hlookup => ?_⟩
      change (fsm (store.log ++ [entry.decoded])).nodes.lookup id = some node at hlookup
      rw [fsm_concat, lookup_applyEntry] at hlookup
      by_cases hid : id = entry.decoded.target
      · rw [hid]
        cases entry <;> exact Utf8.valid_repair _
      · rw [if_neg hid] at hlookup
        exact h.nodes id node hlookup

theorem Store.WellFormed.removeServer (id : Bytes) (applied : Bool) :
    (store.removeServer id applied).WellFormed := by
  cases applied with
  | false => exact h
  | true => exact ⟨h.servers.filter _, h.nodes⟩

theorem Store.WellFormed.addVoter (applied : Bool)
    (hfree : ∀ server ∈ store.servers, ¬server.Matches id address) :
    (store.addVoter id address applied).WellFormed := by
  cases applied with
  | false => exact h
  | true =>
      have hnone : store.servers.any (fun server => server.id = id) = false :=
        List.any_eq_false.mpr fun server hserver hid =>
          hfree server hserver (Or.inl (of_decide_eq_true hid))
      have hservers : (store.addVoter id address true).servers =
          store.servers ++ [⟨id, address⟩] := by
        simp [Store.addVoter, hnone]
      refine ⟨?_, h.nodes⟩
      rw [hservers, List.pairwise_append]
      refine ⟨h.servers, List.pairwise_singleton _ _, fun first hfirst second hsecond => ?_⟩
      obtain rfl := List.mem_singleton.mp hsecond
      exact not_or.mp (hfree first hfirst)

/-- One round of the loop of `Join`. -/
theorem Store.WellFormed.perform_replaceServers {first : Server} {rest : List Server}
    (hready : Ready store (.replaceServers id address (first :: rest))) {choice : Choice}
    (hatomic : choice.applied = choice.ok) :
    (perform store (.replaceServers id address (first :: rest)) choice).1.WellFormed ∧
      ∀ later, (perform store (.replaceServers id address (first :: rest)) choice).2 = some later →
        Ready (perform store (.replaceServers id address (first :: rest)) choice).1 later := by
  simp only [perform]
  by_cases hpair : first.id = id ∧ first.address = address
  · rw [if_pos hpair]
    exact ⟨h, fun later hlater => by cases hlater⟩
  rw [if_neg hpair]
  by_cases hmatches : first.Matches id address
  · rw [if_pos (show _ ∨ _ from hmatches)]
    refine ⟨h.removeServer _ _, fun later hlater => ?_⟩
    obtain ⟨hok, heq⟩ := Option.ite_none_right_eq_some.mp hlater
    cases heq
    rw [hatomic, hok]
    intro server hserver hagain
    obtain ⟨hold, hne⟩ := List.mem_filter.mp hserver
    rcases List.mem_cons.mp (hready server hold hagain) with rfl | hrest
    · exact absurd rfl (of_decide_eq_true hne)
    · exact hrest
  · rw [if_neg (show ¬(_ ∨ _) from hmatches)]
    refine ⟨h, fun later hlater => ?_⟩
    cases hlater
    intro server hserver hagain
    rcases List.mem_cons.mp (hready server hserver hagain) with rfl | hrest
    · exact absurd hagain hmatches
    · exact hrest

/-- One operation of a call. -/
theorem Store.WellFormed.perform (hready : Ready store task) {choice : Choice}
    (hatomic : choice.applied = choice.ok) :
    (perform store task choice).1.WellFormed ∧
      ∀ later, (Cluster.perform store task choice).2 = some later →
        Ready (Cluster.perform store task choice).1 later := by
  cases task with
  | beat id address lastHeartbeatMs => exact ⟨h.append _ _, fun later hlater => by cases hlater⟩
  | delete id => exact ⟨h.append _ _, fun later hlater => by cases hlater⟩
  | join id address =>
      refine ⟨h, fun later hlater => ?_⟩
      obtain ⟨-, heq⟩ := Option.ite_none_right_eq_some.mp hlater
      cases heq
      exact fun server hserver _ => hserver
  | replaceServers id address servers =>
      cases servers with
      | nil =>
          refine ⟨h, fun later hlater => ?_⟩
          cases hlater
          exact fun server hserver hmatches =>
            absurd (hready server hserver hmatches) List.not_mem_nil
      | cons first rest => exact h.perform_replaceServers hready hatomic
  | addVoter id address =>
      refine ⟨h.addVoter _ hready, fun later hlater => ?_⟩
      obtain ⟨-, heq⟩ := Option.ite_none_right_eq_some.mp hlater
      cases heq
      trivial
  | remove id =>
      refine ⟨h.removeServer _ _, fun later hlater => ?_⟩
      obtain ⟨-, heq⟩ := Option.ite_none_right_eq_some.mp hlater
      cases heq
      trivial
  | reap maxAge =>
      refine ⟨h, fun later hlater => ?_⟩
      cases hlater
      trivial
  | mark cutoff readAt stale =>
      simp only [Cluster.perform]
      cases stale[choice.next]? with
      | none =>
          refine ⟨h, fun later hlater => ?_⟩
          obtain ⟨-, heq⟩ := Option.ite_none_left_eq_some.mp hlater
          cases heq
          trivial
      | some node =>
          refine ⟨h.append _ _, fun later hlater => ?_⟩
          obtain ⟨-, heq⟩ := Option.ite_none_right_eq_some.mp hlater
          cases heq
          trivial

/-- All operations of a call. -/
theorem Store.WellFormed.execute (attempt : Attempt) (fuel : Nat) (hready : Ready store task) :
    (execute attempt fuel store task).1.WellFormed := by
  induction fuel generalizing store task with
  | zero => exact h
  | succ fuel ih =>
      have hatomic : (attempt.choice task).applied = (attempt.choice task).ok := rfl
      obtain ⟨hnext, hlater⟩ := h.perform hready hatomic
      rw [Cluster.execute]
      cases hperform : Cluster.perform store task (attempt.choice task) with
      | mk next later =>
          rw [hperform] at hnext hlater
          cases later with
          | none => exact hnext
          | some later => exact ih hnext (hlater later rfl)

theorem Store.WellFormed.after (attempt : Attempt) : (attempt.after store).WellFormed := by
  refine h.execute attempt _ ?_
  cases attempt.call <;> trivial

/-! ## Which runs are safe -/

/-- No other server of the configuration has the id or the address of one of them. -/
theorem Store.WellFormed.eq_of_matches (hmember : ⟨id, address⟩ ∈ store.servers) {server : Server}
    (hserver : server ∈ store.servers) (hmatches : server.Matches id address) :
    server = ⟨id, address⟩ := by
  by_contra hne
  have hsymm : Std.Symm fun first second : Server =>
      first.id ≠ second.id ∧ first.address ≠ second.address :=
    ⟨fun first second hpair => ⟨hpair.1.symm, hpair.2.symm⟩⟩
  obtain ⟨hid, haddress⟩ := h.servers.forall hserver hmember hne
  rcases hmatches with heq | heq
  · exact hid heq
  · exact haddress heq

theorem knows_of_log {next : Store} {lastHeartbeatMs : Int}
    (hlog : next.log = store.log ++ [(Entry.beat ⟨id, address, true, lastHeartbeatMs⟩).decoded]) :
    next.Knows id address ↔ Utf8.valid id = true ∧ Utf8.valid address = true := by
  have hlookup : next.copyState.nodes.lookup id =
      if id = Utf8.repair id then
        some (ClusterNode.decoded ⟨id, address, true, lastHeartbeatMs⟩)
      else store.copyState.nodes.lookup id := by
    rw [Store.copyState, hlog, fsm_concat, lookup_applyEntry]
    rfl
  unfold Store.Knows
  rw [hlookup, ← Utf8.repair_eq_self_iff, ← Utf8.repair_eq_self_iff]
  by_cases hid : id = Utf8.repair id
  · rw [if_pos hid]
    simp only [Option.some.injEq, exists_eq_left', ClusterNode.decoded, ← hid, true_and]
  · rw [if_neg hid]
    constructor
    · rintro ⟨node, hnode, -⟩
      exact absurd (Utf8.repair_of_valid (h.nodes id node hnode)).symm hid
    · exact fun hvalid => absurd hvalid.1.symm hid

omit h in
/-- `Join` reads the configuration first. -/
theorem complete_join (store : Store) {attempt : Attempt}
    (hcall : attempt.call = .join id address) :
    attempt.complete store =
      if Operation.getConfiguration ∈ attempt.failures then (store, some false)
      else Cluster.execute attempt (store.servers.length + 3) store
        (.replaceServers id address store.servers) := by
  have hchoice : attempt.choice (.join id address) = _ := choice_of_operation attempt rfl
  rw [Attempt.complete, hcall, Call.task, Cluster.execute, perform, hchoice]
  by_cases hread : Operation.getConfiguration ∈ attempt.failures
  · simp [hread, Task.returnsNil]
  · simp [hread]

/-- The two ways of a `Join` that has read the configuration. -/
theorem Store.WellFormed.join_cases (attempt : Attempt) (id address : Bytes) :
    (⟨id, address⟩ ∈ store.servers ∧
      Cluster.execute attempt (store.servers.length + 3) store
        (.replaceServers id address store.servers) = (store, some true)) ∨
    (⟨id, address⟩ ∉ store.servers ∧
      Settled attempt id address store.servers store
        (Cluster.execute attempt (store.servers.length + 3) store
          (.replaceServers id address store.servers))) := by
  by_cases hmember : ⟨id, address⟩ ∈ store.servers
  · refine Or.inl ⟨hmember, ?_⟩
    exact execute_of_member attempt id address (Nat.le_add_right _ 3) hmember
      fun server hserver hmatches => h.eq_of_matches hmember hserver hmatches
  · exact Or.inr ⟨hmember, execute_of_not_member attempt id address le_rfl hmember⟩

/-- Every call returns. -/
theorem Store.WellFormed.returns (attempt : Attempt) : (attempt.complete store).2.isSome = true := by
  cases hcall : attempt.call with
  | heartbeat id address now =>
      rw [Attempt.complete, hcall, Call.task, execute_beat]
      rfl
  | join id address =>
      rw [complete_join store hcall]
      split
      · rfl
      · rcases h.join_cases attempt id address with
          ⟨-, hresult⟩ | ⟨-, ⟨-, hresult⟩ | ⟨-, hresult, -⟩⟩ <;> rw [hresult] <;> rfl
  | remove id =>
      have hchoice : attempt.choice (.remove id) = _ := choice_of_operation attempt rfl
      rw [Attempt.complete, hcall, Call.task, Cluster.execute, Cluster.perform, hchoice]
      by_cases hremove : Operation.removeServer id ∈ attempt.failures
      · simp [hremove]
      · simp [hremove, Cluster.execute, Cluster.perform]
  | reapStale maxAge => exact absurd hcall (attempt.membership maxAge)

/-- **One `Join`** that returns nil has registered its node exactly if it was prepared. -/
theorem joinRegisters_iff (attempt : Attempt) :
    JoinRegisters store attempt ↔ Prepared store attempt := by
  unfold JoinRegisters Prepared
  refine forall_congr' fun id => forall_congr' fun address => forall_congr' fun hcall => ?_
  have hcomplete := complete_join store hcall
  rw [Attempt.after, hcomplete]
  by_cases hread : Operation.getConfiguration ∈ attempt.failures
  · simp [hread]
  rw [if_neg hread]
  rcases h.join_cases attempt id address with ⟨hmember, hexecute⟩ | ⟨hmember, hsettled⟩
  · simp [hexecute, hread, hmember, Store.Registers]
  · rcases hsettled with
      ⟨hfails, hresult⟩ | ⟨hfails, hresult, hserver, lastHeartbeatMs, hlog⟩
    · simp [hresult, hmember, hfails]
    · simp [hresult, hmember, hfails, hread, Store.Registers, hserver, knows_of_log h hlog]

end Invariant

theorem wellFormed_bootstrapped (self : Server) : (bootstrapped self).WellFormed :=
  ⟨List.pairwise_singleton _ _, fun id node hlookup => by cases hlookup⟩

/-- **Retrying `Join` is safe** exactly in the runs in which a `Join` that finds its server in the
configuration finds its node in the state machine, and no `Join` of a new server succeeds with
strings that JSON changes. -/
theorem retrySafe_iff (self : Server) (attempts : List Attempt) :
    RetrySafe self attempts ↔
      Execution.Along Attempt.after Prepared (bootstrapped self) attempts := by
  have hstep : ∀ store attempt, store.WellFormed → JoinRegisters store attempt →
      (Attempt.after store attempt).WellFormed := fun _ attempt h _ => h.after attempt
  exact Execution.along_iff hstep (fun _ attempt h => joinRegisters_iff h attempt)
    (wellFormed_bootstrapped self) attempts

/-- `Join` of a second node; an operation may fail. -/
def joinSecond (failures : List Operation) : Attempt where
  call := .join (ascii "node-2") (ascii "10.0.0.2:7000")
  failures := failures
  membership := fun _ => Call.noConfusion

/-- The command of the first `Join` is not applied, and the second `Join` returns nil at once. -/
theorem not_retrySafe_joinSecond :
    ¬RetrySafe ⟨ascii "node-1", ascii "10.0.0.1:7000"⟩ [joinSecond [.apply], joinSecond []] := by
  rintro ⟨-, hsecond, -⟩
  obtain ⟨-, node, hnode, -⟩ := hsecond _ _ rfl (by decide +kernel)
  have hnone : ((joinSecond []).after ((joinSecond [.apply]).after
      (bootstrapped ⟨ascii "node-1", ascii "10.0.0.1:7000"⟩))).copyState.nodes.lookup
        (ascii "node-2") = none := by
    decide +kernel
  exact Option.some_ne_none node (hnode.symm.trans hnone)

end Ubiq.Cluster
