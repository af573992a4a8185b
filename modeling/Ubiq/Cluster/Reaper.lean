import Ubiq.Cluster.Membership

/-!
# Heartbeats and the reaper

`ReapStale` reads the nodes once and then writes whole records back, one command per
stale node. A heartbeat, join or removal that is applied between the read and such a
command is overwritten by it. `kept_of_undisturbed` says that nothing else goes wrong:
while no reaper writes a node that has changed since its read, unhealthy nodes have
missed the cutoff, heartbeats are not set back and removed nodes stay removed.
-/

namespace Ubiq.Cluster

open Foundation

variable {β : Type*} {id : Bytes} {node : ClusterNode} {pool : Pool}

/-- What the last entry that `read` accepts says. -/
def latest (read : Entry → Option β) (log : List Entry) : Option β :=
  (log.filterMap read).getLast?

theorem latest_concat (read : Entry → Option β) (log : List Entry) (entry : Entry) :
    latest read (log ++ [entry]) = (read entry).or (latest read log) := by
  unfold latest
  rw [List.filterMap_append]
  cases hread : read entry with
  | none => simp [hread]
  | some value => simp [hread]

namespace Entry

/-- The heartbeat or join of a node. -/
def beatOf (id : Bytes) : Entry → Option ClusterNode
  | .beat node => if node.id = id then some node else none
  | _ => none

/-- The cutoff of a reaper that marks the node. -/
def markOf (id : Bytes) : Entry → Option Int
  | .reap cutoff node => if node.id = id then some cutoff else none
  | _ => none

/-- A `Heartbeat`, `Join` or `Remove` of the node. -/
def disturbs (id : Bytes) : Entry → Bool
  | .beat node => node.id = id
  | .remove other => other = id
  | .reap _ _ => false

theorem beatOf_of_ne {entry : Entry} (h : id ≠ entry.target) :
    entry.beatOf id = none := by
  cases entry with
  | beat node => exact if_neg (Ne.symm h)
  | remove other => rfl
  | reap cutoff node => rfl

theorem markOf_of_ne {entry : Entry} (h : id ≠ entry.target) :
    entry.markOf id = none := by
  cases entry with
  | beat node => rfl
  | remove other => rfl
  | reap cutoff node => exact if_neg (Ne.symm h)

end Entry

/-! ## What is claimed of the log -/

/-- The reaper writes no node that is absent, and no older heartbeat. -/
def ReapKeeps (state : ClusterState) : Entry → Prop
  | .reap _ node =>
      state.nodes.lookup node.id ≠ none ∧
        ∀ old, state.nodes.lookup node.id = some old → old.lastHeartbeatMs ≤ node.lastHeartbeatMs
  | _ => True

/-- The reaper undoes no heartbeat, join or removal. -/
structure Kept (log : List Entry) : Prop where
  /-- The last heartbeat or join of an unhealthy node is older than the cutoff that marked it. -/
  unhealthy : ∀ id node, (fsm log).nodes.lookup id = some node → node.healthy = false →
    ∃ beat cutoff, latest (Entry.beatOf id) log = some beat ∧
      latest (Entry.markOf id) log = some cutoff ∧ beat.lastHeartbeatMs < cutoff
  /-- The same of every command of a reaper, in the state in which it is applied. -/
  reaps : Execution.Along ClusterState.applyEntry ReapKeeps {} log

/-- No call has changed the node since the log had the given length. -/
def undisturbed (log : List Entry) (readAt : Nat) (id : Bytes) : Bool :=
  (log.drop readAt).all fun entry => !entry.disturbs id

/-- A command of a reaper that is applied is about a node that is undisturbed since the
reaper's read. -/
def reapsUndisturbed (pool : Pool) : Action → Bool
  | .call _ => true
  | .advance index choice =>
      match pool.tasks[index]? with
      | some (.mark _ readAt stale) =>
          !choice.applied || stale[choice.next]?.all fun node =>
            undisturbed pool.store.log readAt node.id
      | _ => true

/-! ## One entry -/

/-- What holds of the log in every run of undisturbed reapers. -/
structure Sound (log : List Entry) : Prop where
  keyed : ∀ id node, (fsm log).nodes.lookup id = some node → node.id = id ∧ node.decoded = node
  beaten : ∀ id node, (fsm log).nodes.lookup id = some node →
    ∃ beat, latest (Entry.beatOf id) log = some beat ∧
      beat.lastHeartbeatMs = node.lastHeartbeatMs
  marked : ∀ id node, (fsm log).nodes.lookup id = some node → node.healthy = false →
    ∃ cutoff, latest (Entry.markOf id) log = some cutoff ∧ node.lastHeartbeatMs < cutoff
  reaps : Execution.Along ClusterState.applyEntry ReapKeeps {} log

/-- What an entry must be for the log to stay sound: nodes have been read from JSON, and a reaper
writes the heartbeat that the state machine has. -/
def Allowed (log : List Entry) : Entry → Prop
  | .beat node => node.decoded = node ∧ node.healthy = true
  | .remove _ => True
  | .reap cutoff node => node.decoded = node ∧ node.lastHeartbeatMs < cutoff ∧
      ∃ old, (fsm log).nodes.lookup node.id = some old ∧
        old.lastHeartbeatMs = node.lastHeartbeatMs

theorem sound_nil : Sound [] := by
  have hnone : ∀ id node, ¬(fsm []).nodes.lookup id = some node := by
    intro id node h
    cases h
  exact ⟨fun id node h => absurd h (hnone id node), fun id node h => absurd h (hnone id node),
    fun id node h => absurd h (hnone id node), trivial⟩

theorem Sound.kept {log : List Entry} (h : Sound log) : Kept log := by
  refine ⟨fun id node hlookup hunhealthy => ?_, h.reaps⟩
  obtain ⟨beat, hbeat, hsame⟩ := h.beaten id node hlookup
  obtain ⟨cutoff, hcutoff, hlt⟩ := h.marked id node hlookup hunhealthy
  exact ⟨beat, cutoff, hbeat, hcutoff, hsame ▸ hlt⟩

section Entries

variable {log : List Entry} {entry : Entry}

/-- The state machine, one node at a time. -/
theorem lookup_fsm_concat (log : List Entry) (entry : Entry) (id : Bytes) :
    (fsm (log ++ [entry])).nodes.lookup id =
      if id = entry.target then entry.result else (fsm log).nodes.lookup id := by
  rw [fsm_concat, lookup_applyEntry]

/-- A node of the new state is the one that the entry leaves, or an old one. -/
theorem lookup_concat_cases (h : (fsm (log ++ [entry])).nodes.lookup id = some node) :
    (id = entry.target ∧ entry.result = some node) ∨
      (id ≠ entry.target ∧ (fsm log).nodes.lookup id = some node) := by
  rw [lookup_fsm_concat] at h
  by_cases hid : id = entry.target
  · rw [if_pos hid] at h
    exact Or.inl ⟨hid, h⟩
  · rw [if_neg hid] at h
    exact Or.inr ⟨hid, h⟩

theorem target_of_result (h : entry.result = some node) :
    entry.target = node.id := by
  cases entry with
  | beat other => cases h; rfl
  | remove id => cases h
  | reap cutoff other => cases h; rfl

theorem Allowed.decoded (hentry : Allowed log entry) (h : entry.result = some node) :
    node.decoded = node := by
  cases entry with
  | beat other => cases h; exact hentry.1
  | remove id => cases h
  | reap cutoff other => cases h; exact hentry.1

theorem Sound.beaten_concat (h : Sound log) (hentry : Allowed log entry)
    (hlookup : (fsm (log ++ [entry])).nodes.lookup id = some node) :
    ∃ beat, latest (Entry.beatOf id) (log ++ [entry]) = some beat ∧
      beat.lastHeartbeatMs = node.lastHeartbeatMs := by
  rw [latest_concat]
  rcases lookup_concat_cases hlookup with ⟨rfl, hresult⟩ | ⟨hne, hold⟩
  · cases entry with
    | beat other =>
        cases hresult
        exact ⟨node, by simp [Entry.beatOf, Entry.target], rfl⟩
    | remove id => cases hresult
    | reap cutoff other =>
        cases hresult
        obtain ⟨-, -, old, hold, hsame⟩ := hentry
        obtain ⟨beat, hbeat, hbefore⟩ := h.beaten _ old hold
        exact ⟨beat, hbeat, hbefore.trans hsame⟩
  · rw [Entry.beatOf_of_ne hne]
    exact h.beaten id node hold

theorem Sound.marked_concat (h : Sound log) (hentry : Allowed log entry)
    (hlookup : (fsm (log ++ [entry])).nodes.lookup id = some node)
    (hunhealthy : node.healthy = false) :
    ∃ cutoff, latest (Entry.markOf id) (log ++ [entry]) = some cutoff ∧
      node.lastHeartbeatMs < cutoff := by
  rw [latest_concat]
  rcases lookup_concat_cases hlookup with ⟨rfl, hresult⟩ | ⟨hne, hold⟩
  · cases entry with
    | beat other =>
        cases hresult
        exact absurd hunhealthy (by rw [hentry.2]; decide)
    | remove id => cases hresult
    | reap cutoff other =>
        cases hresult
        exact ⟨cutoff, by simp [Entry.markOf, Entry.target], hentry.2.1⟩
  · rw [Entry.markOf_of_ne hne]
    exact h.marked id node hold hunhealthy

theorem Sound.concat (h : Sound log) (hentry : Allowed log entry) : Sound (log ++ [entry]) := by
  refine ⟨fun id node hlookup => ?_, fun id node hlookup => h.beaten_concat hentry hlookup,
    fun id node hlookup hunhealthy => h.marked_concat hentry hlookup hunhealthy, ?_⟩
  · rcases lookup_concat_cases hlookup with ⟨rfl, hresult⟩ | ⟨-, hold⟩
    · exact ⟨(target_of_result hresult).symm, hentry.decoded hresult⟩
    · exact h.keyed id node hold
  · refine (Execution.along_append _ _ _ _ _).mpr ⟨h.reaps, ?_, trivial⟩
    cases entry with
    | beat node => trivial
    | remove id => trivial
    | reap cutoff node =>
        obtain ⟨-, -, old, hold, hsame⟩ := hentry
        refine ⟨fun hnone => ?_, fun other hother => ?_⟩
        · exact Option.some_ne_none old (hold.symm.trans hnone)
        · have heq : old = other := Option.some.inj (hold.symm.trans hother)
          exact (heq ▸ hsame).le

end Entries

/-! ## Calls in flight -/

/-- What a reaper may rely on: its nodes have been read from JSON and are stale, and those that are
undisturbed have the heartbeat that it read. -/
def Justified (log : List Entry) : Task → Prop
  | .mark cutoff readAt stale => readAt ≤ log.length ∧
      ∀ node ∈ stale, node.decoded = node ∧ node.lastHeartbeatMs < cutoff ∧
        (undisturbed log readAt node.id = true →
          ∃ current, (fsm log).nodes.lookup node.id = some current ∧
            current.lastHeartbeatMs = node.lastHeartbeatMs)
  | _ => True

/-- The entry that the next operation of a call appends. -/
def Task.emits (task : Task) (choice : Choice) : Option Entry :=
  match task with
  | .beat id address lastHeartbeatMs =>
      if choice.applied then some (Entry.beat ⟨id, address, true, lastHeartbeatMs⟩).decoded
      else none
  | .delete id => if choice.applied then some (Entry.remove id).decoded else none
  | .mark cutoff _ stale =>
      if choice.applied then
        stale[choice.next]?.map fun node => (Entry.reap cutoff { node with healthy := false }).decoded
      else none
  | _ => none

section Tasks

variable {log : List Entry} {entry : Entry} {store : Store} {task rest : Task} {choice : Choice}
  {readAt index : Nat} {cutoff : Int}

theorem log_append (store : Store) (entry : Entry) (applied : Bool) :
    (store.append entry applied).log =
      store.log ++ (if applied then some entry.decoded else none).toList := by
  cases applied with
  | true => rfl
  | false => simp [Store.append]

@[simp] theorem log_removeServer (store : Store) (id : Bytes) (applied : Bool) :
    (store.removeServer id applied).log = store.log := by
  cases applied <;> rfl

@[simp] theorem log_addVoter (store : Store) (id address : Bytes) (applied : Bool) :
    (store.addVoter id address applied).log = store.log := by
  cases applied <;> rfl

theorem log_perform (store : Store) (task : Task) (choice : Choice) :
    (perform store task choice).1.log = store.log ++ (task.emits choice).toList := by
  cases task with
  | beat id address lastHeartbeatMs => exact log_append ..
  | delete id => exact log_append ..
  | join id address => simp [perform, Task.emits]
  | addVoter id address => simp [perform, Task.emits]
  | remove id => simp [perform, Task.emits]
  | reap maxAge => simp [perform, Task.emits]
  | replaceServers id address servers =>
      cases servers with
      | nil => simp [perform, Task.emits]
      | cons server rest =>
          simp only [perform, Task.emits]
          split
          · simp
          · split <;> simp
  | mark cutoff readAt stale =>
      simp only [perform, Task.emits]
      cases hnext : stale[choice.next]? with
      | none => simp
      | some node => exact log_append ..

theorem undisturbed_concat (hread : readAt ≤ log.length)
    (h : undisturbed (log ++ [entry]) readAt id = true) :
    undisturbed log readAt id = true ∧ entry.disturbs id = false := by
  unfold undisturbed at h ⊢
  rw [List.drop_append_of_le_length hread, List.all_append] at h
  simpa using h

/-- A sound entry of another call does not invalidate what a reaper relies on. -/
theorem Justified.concat (h : Justified log task) (hentry : Allowed log entry) :
    Justified (log ++ [entry]) task := by
  cases task with
  | mark cutoff readAt stale =>
      obtain ⟨hread, hstale⟩ := h
      refine ⟨hread.trans (by simp), fun node hmem => ?_⟩
      obtain ⟨hdecoded, hlt, hcurrent⟩ := hstale node hmem
      refine ⟨hdecoded, hlt, fun hundisturbed => ?_⟩
      obtain ⟨hbefore, hquiet⟩ := undisturbed_concat hread hundisturbed
      obtain ⟨current, hlookup, hsame⟩ := hcurrent hbefore
      rw [lookup_fsm_concat]
      by_cases hid : node.id = entry.target
      · rw [if_pos hid]
        -- only another reaper has written the node, and it has kept the heartbeat
        cases entry with
        | beat other => exact absurd hquiet (by simp [Entry.disturbs, hid, Entry.target])
        | remove other => exact absurd hquiet (by simp [Entry.disturbs, hid, Entry.target])
        | reap mark other =>
            obtain ⟨-, -, old, hold, hkept⟩ := hentry
            have heq : old = current :=
              Option.some.inj (hold.symm.trans ((congrArg _ hid.symm).trans hlookup))
            exact ⟨other, rfl, hkept.symm.trans (heq ▸ hsame)⟩
      · rw [if_neg hid]
        exact ⟨current, hlookup, hsame⟩
  | _ => trivial

theorem mem_staleNodes {state : ClusterState} (h : node ∈ state.staleNodes cutoff) :
    node.lastHeartbeatMs < cutoff ∧ ∃ id, state.nodes.lookup id = some node := by
  obtain ⟨hmem, hstale⟩ := List.mem_filter.mp h
  obtain ⟨⟨id, value⟩, hrow, rfl⟩ := List.mem_map.mp hmem
  rw [ClusterNode.isStale, Bool.and_eq_true] at hstale
  exact ⟨of_decide_eq_true hstale.2, id, SortedTable.mem_rows_iff.mp hrow⟩

/-- The loop of a reaper starts with the stale nodes of its read and goes on with fewer. -/
theorem mark_of_perform {stale : List ClusterNode}
    (h : (perform store task choice).2 = some (.mark cutoff readAt stale)) :
    (readAt = store.log.length ∧ stale = (fsm store.log).staleNodes cutoff) ∨
      ∃ before, task = .mark cutoff readAt before ∧ stale ⊆ before := by
  cases task with
  | beat id address lastHeartbeatMs => cases h
  | delete id => cases h
  | join id address => simp [perform] at h
  | addVoter id address => simp [perform] at h
  | remove id => simp [perform] at h
  | replaceServers id address servers =>
      cases servers with
      | nil => cases h
      | cons server rest =>
          simp only [perform] at h
          split at h
          · cases h
          · split at h
            · simp at h
            · cases h
  | reap maxAge =>
      cases h
      exact Or.inl ⟨rfl, rfl⟩
  | mark before position nodes =>
      simp only [perform] at h
      split at h
      · split at h
        · cases h
        · cases h
          exact Or.inr ⟨stale, rfl, fun _ hmem => hmem⟩
      · obtain ⟨-, heq⟩ := Option.ite_none_right_eq_some.mp h
        cases heq
        exact Or.inr ⟨nodes, rfl, fun _ hmem => List.mem_of_mem_eraseIdx hmem⟩

/-- The rest of a call is justified where the call was. -/
theorem Justified.of_perform (h : Justified store.log task) (hsound : Sound store.log)
    (hrest : (perform store task choice).2 = some rest) : Justified store.log rest := by
  cases rest with
  | mark cutoff readAt stale =>
      rcases mark_of_perform hrest with ⟨rfl, rfl⟩ | ⟨before, rfl, hsubset⟩
      · refine ⟨le_rfl, fun node hmem => ?_⟩
        obtain ⟨hlt, id, hlookup⟩ := mem_staleNodes hmem
        obtain ⟨rfl, hdecoded⟩ := hsound.keyed id node hlookup
        exact ⟨hdecoded, hlt, fun _ => ⟨node, hlookup, rfl⟩⟩
      · exact ⟨h.1, fun node hmem => h.2 node (hsubset hmem)⟩
  | _ => trivial

/-- An undisturbed call appends an entry that keeps the log sound. -/
theorem allowed_of_guard (hguard : reapsUndisturbed pool (.advance index choice) = true)
    (htask : pool.tasks[index]? = some task) (h : Justified pool.store.log task)
    (hentry : task.emits choice = some entry) : Allowed pool.store.log entry := by
  cases task with
  | beat id address lastHeartbeatMs =>
      obtain ⟨-, heq⟩ := Option.ite_none_right_eq_some.mp hentry
      cases heq
      exact ⟨ClusterNode.decoded_decoded _, rfl⟩
  | delete id =>
      obtain ⟨-, heq⟩ := Option.ite_none_right_eq_some.mp hentry
      cases heq
      trivial
  | mark cutoff readAt stale =>
      obtain ⟨happlied, heq⟩ := Option.ite_none_right_eq_some.mp hentry
      obtain ⟨node, hnode, rfl⟩ := Option.map_eq_some_iff.mp heq
      obtain ⟨hdecoded, hlt, hcurrent⟩ := h.2 node (List.mem_of_getElem? hnode)
      simp only [reapsUndisturbed, htask, hnode, happlied] at hguard
      obtain ⟨old, hold, hsame⟩ := hcurrent (by simpa using hguard)
      have hid : Utf8.repair node.id = node.id := congrArg ClusterNode.id hdecoded
      refine ⟨ClusterNode.decoded_decoded _, hlt, old, ?_, hsame⟩
      show (fsm pool.store.log).nodes.lookup (Utf8.repair node.id) = some old
      rw [hid]
      exact hold
  | _ => cases hentry

/-- The log after an undisturbed operation. -/
theorem Sound.perform (h : Sound pool.store.log)
    (hguard : reapsUndisturbed pool (.advance index choice) = true)
    (htask : pool.tasks[index]? = some task) (hjustified : Justified pool.store.log task) :
    Sound (perform pool.store task choice).1.log := by
  rw [log_perform]
  cases hentry : task.emits choice with
  | none => simpa using h
  | some entry => exact h.concat (allowed_of_guard hguard htask hjustified hentry)

theorem Justified.perform {other : Task} (h : Justified pool.store.log other)
    (hguard : reapsUndisturbed pool (.advance index choice) = true)
    (htask : pool.tasks[index]? = some task) (hjustified : Justified pool.store.log task) :
    Justified (perform pool.store task choice).1.log other := by
  rw [log_perform]
  cases hentry : task.emits choice with
  | none => simpa using h
  | some entry => exact h.concat (allowed_of_guard hguard htask hjustified hentry)

end Tasks

/-- The log is sound and every call in flight is justified. -/
abbrev Annotated : Pool → Prop :=
  Interleaving.Annotated (fun store : Store => Sound store.log) fun store => Justified store.log

theorem annotated_start : Annotated start :=
  ⟨sound_nil, fun _ h => absurd h List.not_mem_nil⟩

theorem annotated_step {action : Action} (h : Annotated pool)
    (hguard : reapsUndisturbed pool action = true) : Annotated (step pool action) := by
  cases action with
  | call call =>
      show Interleaving.Annotated _ _ (Interleaving.step perform pool (.spawn call.task))
      refine h.spawn ?_
      cases call <;> trivial
  | advance index choice =>
      refine h.advance (fun task htask => ⟨?_, fun rest hrest => ?_⟩)
        fun task htask other hother => ?_
      · exact h.store.perform hguard htask (h.tasks task (List.mem_of_getElem? htask))
      · have hjustified := h.tasks task (List.mem_of_getElem? htask)
        exact (hjustified.of_perform h.store hrest).perform hguard htask hjustified
      · exact (h.tasks other hother).perform hguard htask
          (h.tasks task (List.mem_of_getElem? htask))

/-- **Heartbeats are not undone.** In every run of the leader in which the reapers only write
nodes without a heartbeat, join or removal since their read, unhealthy nodes have missed
the cutoff that marked them, no reaper sets a heartbeat back, and none reinserts a node. -/
theorem kept_of_undisturbed (actions : List Action)
    (h : Execution.Along step (fun pool action => reapsUndisturbed pool action = true) start
      actions) :
    Kept (Execution.run step start actions).store.log := by
  have hrun : Annotated (Execution.run step start actions) :=
    Execution.invariant_run (fun _ _ hpool hguard => annotated_step hpool hguard) annotated_start h
  exact hrun.store.kept

/-- The heartbeat of a node at a second of the clock. -/
def beatAt (seconds : Int) : Call :=
  .heartbeat (ascii "node-a") (ascii "10.0.0.1:7000") (seconds * 1000000000)

/-- A node misses a cutoff, is marked and comes back. -/
def missedBeat : List Action :=
  [.call (beatAt 1), .advance 0 {},
    .call (.reapStale 1000000000), .advance 0 { now := 3000000000 }, .advance 0 {},
    .call (beatAt 4), .advance 1 {}]

theorem kept_missedBeat :
    Kept (Execution.run step start (missedBeat.take 5)).store.log ∧
    Kept (Execution.run step start missedBeat).store.log ∧
    (Execution.run step start missedBeat).store.log.map Entry.target =
      [ascii "node-a", ascii "node-a", ascii "node-a"] :=
  ⟨kept_of_undisturbed (missedBeat.take 5) (by decide +kernel),
    kept_of_undisturbed missedBeat (by decide +kernel), by decide +kernel⟩

/-- The reaper reads the node, and `between` happens before its command is applied. -/
def reapAround (between : List Action) : List Action :=
  [.call (beatAt 1), .advance 0 {}, .call (.reapStale 1000000000),
    .advance 0 { now := 3000000000 }] ++ between ++ [.advance 0 {}]

/-- A heartbeat is applied in between: the node ends up unhealthy with the older heartbeat.
A removal is applied in between: the node is back. -/
theorem not_kept_reapAround :
    ¬Kept (Execution.run step start (reapAround [.call (beatAt 3), .advance 1 {}])).store.log ∧
    ¬Kept (Execution.run step start
      (reapAround [.call (.remove (ascii "node-a")), .advance 1 {}, .advance 1 {}])).store.log := by
  constructor
  · have hlog : (Execution.run step start
        (reapAround [.call (beatAt 3), .advance 1 {}])).store.log =
        [.beat ⟨ascii "node-a", ascii "10.0.0.1:7000", true, 1000⟩,
          .beat ⟨ascii "node-a", ascii "10.0.0.1:7000", true, 3000⟩,
          .reap 2000 ⟨ascii "node-a", ascii "10.0.0.1:7000", false, 1000⟩] := by
      decide +kernel
    rw [hlog]
    rintro ⟨-, -, -, ⟨-, holder⟩, -⟩
    have hle := holder ⟨ascii "node-a", ascii "10.0.0.1:7000", true, 3000⟩ (by decide +kernel)
    revert hle
    decide
  · have hlog : (Execution.run step start
        (reapAround [.call (.remove (ascii "node-a")), .advance 1 {}, .advance 1 {}])).store.log =
        [.beat ⟨ascii "node-a", ascii "10.0.0.1:7000", true, 1000⟩,
          .remove (ascii "node-a"),
          .reap 2000 ⟨ascii "node-a", ascii "10.0.0.1:7000", false, 1000⟩] := by
      decide +kernel
    rw [hlog]
    rintro ⟨-, -, -, ⟨hpresent, -⟩, -⟩
    exact hpresent (by decide +kernel)

end Ubiq.Cluster
