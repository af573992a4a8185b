import Ubiq.Foundation.Interleaving
import Ubiq.Foundation.SortedTable
import Ubiq.Foundation.Utf8

/-!
# Cluster membership over Raft

`clusterFSM` and the calls of `RaftCluster` on the leader. Raft applies the commands
one at a time in the order of its log, so the state machine is a fold over the log; an
entry of the log keeps the call that it comes from next to its command. Commands are JSON,
which replaces the bytes of a string that are not UTF-8.

A call is a task that performs one operation on Raft at a time: a read or a change of
the configuration, or a command. Calls interleave in any order. Every operation may
fail, and one that reports a failure may have taken effect all the same.
-/

namespace Ubiq.Cluster

open Foundation

structure ClusterNode where
  id : Bytes
  address : Bytes
  healthy : Bool
  lastHeartbeatMs : Int
deriving DecidableEq, Repr

/-- What `encoding/json` makes of the strings of a node. -/
def ClusterNode.decoded (node : ClusterNode) : ClusterNode :=
  { node with id := Utf8.repair node.id, address := Utf8.repair node.address }

/-- `clusterCommand`; the operations are `"upsert"` and `"delete"`. -/
inductive ClusterCommand
  | upsert (node : ClusterNode)
  | delete (id : Bytes)
deriving DecidableEq, Repr

structure ClusterState where
  epoch : UInt64 := 0
  nodes : SortedTable Bytes ClusterNode := .empty

def ClusterState.apply (state : ClusterState) : ClusterCommand → ClusterState
  | .upsert node => { epoch := state.epoch + 1, nodes := state.nodes.put node.id node }
  | .delete id => { epoch := state.epoch + 1, nodes := state.nodes.restrict fun other => other ≠ id }

/-- A command of the log with its call: a `Heartbeat` or `Join`, a `Remove`, or a `ReapStale`
with its cutoff. -/
inductive Entry
  | beat (node : ClusterNode)
  | remove (id : Bytes)
  | reap (cutoff : Int) (node : ClusterNode)
deriving DecidableEq, Repr

namespace Entry

/-- The command. -/
def command : Entry → ClusterCommand
  | .beat node | .reap _ node => .upsert node
  | .remove id => .delete id

/-- The node that the entry is about. -/
def target : Entry → Bytes
  | .beat node | .reap _ node => node.id
  | .remove id => id

/-- What the entry leaves in the state. -/
def result : Entry → Option ClusterNode
  | .beat node | .reap _ node => some node
  | .remove _ => none

/-- The entry with the command that the state machine reads from its JSON. -/
def decoded : Entry → Entry
  | .beat node => .beat node.decoded
  | .remove id => .remove (Utf8.repair id)
  | .reap cutoff node => .reap cutoff node.decoded

end Entry

/-- The state machine after one more entry. -/
def ClusterState.applyEntry (state : ClusterState) (entry : Entry) : ClusterState :=
  state.apply entry.command

/-- The state machine after the entries of a log. -/
def fsm (log : List Entry) : ClusterState :=
  Execution.run ClusterState.applyEntry {} log

/-- A server of the Raft configuration. -/
structure Server where
  id : Bytes
  address : Bytes
deriving DecidableEq, Repr

/-- The log that has been applied, and the configuration. -/
structure Store where
  log : List Entry := []
  servers : List Server := []
deriving DecidableEq, Repr

def Store.copyState (store : Store) : ClusterState := fsm store.log

/-- The part of a call that is still to be performed. -/
inductive Task
  /-- `UpsertNode` of a healthy node. -/
  | beat (id address : Bytes) (lastHeartbeatMs : Int)
  | join (id address : Bytes)
  /-- The loop of `Join` over the servers of the configuration. -/
  | replaceServers (id address : Bytes) (servers : List Server)
  | addVoter (id address : Bytes)
  | remove (id : Bytes)
  | delete (id : Bytes)
  | reap (maxAge : Int)
  /-- The loop of `ReapStale`; `readAt` is the length of the log at its `copyState`. -/
  | mark (cutoff : Int) (readAt : Nat) (stale : List ClusterNode)
deriving DecidableEq, Repr

/-- What the environment decides about an operation: the clock in nanoseconds, whether the
operation takes effect, whether it reports success, and the node that the loop of
`ReapStale` takes next. -/
structure Choice where
  now : Int := 0
  applied : Bool := true
  ok : Bool := true
  next : Nat := 0
deriving DecidableEq, Repr

def unixMilli (now : Int) : Int := now / 1000000

/-- `time.Now().Add(-maxAge).UnixMilli()`. -/
def cutoffOf (now maxAge : Int) : Int := unixMilli (now + Int.bmod (-maxAge) (2 ^ 64))

/-- `node.Healthy && node.LastHeartbeatMS < cutoff`. -/
def ClusterNode.isStale (cutoff : Int) (node : ClusterNode) : Bool :=
  node.healthy && decide (node.lastHeartbeatMs < cutoff)

/-- The nodes that `ReapStale` marks. -/
def ClusterState.staleNodes (state : ClusterState) (cutoff : Int) : List ClusterNode :=
  (state.nodes.rows.map Prod.snd).filter (ClusterNode.isStale cutoff)

namespace Store

/-- `raft.Apply` of the JSON of a command. -/
def append (store : Store) (entry : Entry) (applied : Bool) : Store :=
  if applied then { store with log := store.log ++ [entry.decoded] } else store

def removeServer (store : Store) (id : Bytes) (applied : Bool) : Store :=
  if applied then { store with servers := store.servers.filter fun server => server.id ≠ id }
  else store

/-- `raft.AddVoter`, which changes the address of a known server. -/
def addVoter (store : Store) (id address : Bytes) (applied : Bool) : Store :=
  if applied then
    { store with
      servers :=
        if store.servers.any fun server => server.id = id then
          store.servers.map fun server => if server.id = id then ⟨id, address⟩ else server
        else store.servers ++ [⟨id, address⟩] }
  else store

end Store

/-- The next operation of a call. -/
def perform (store : Store) (task : Task) (choice : Choice) : Store × Option Task :=
  match task with
  | .beat id address lastHeartbeatMs =>
      (store.append (.beat ⟨id, address, true, lastHeartbeatMs⟩) choice.applied, none)
  | .join id address =>
      (store, if choice.ok then some (.replaceServers id address store.servers) else none)
  | .replaceServers id address [] => (store, some (.addVoter id address))
  | .replaceServers id address (server :: rest) =>
      if server.id = id ∧ server.address = address then (store, none)
      else if server.id = id ∨ server.address = address then
        (store.removeServer server.id choice.applied,
          if choice.ok then some (.replaceServers id address rest) else none)
      else (store, some (.replaceServers id address rest))
  | .addVoter id address =>
      (store.addVoter id address choice.applied,
        if choice.ok then some (.beat id address (unixMilli choice.now)) else none)
  | .remove id =>
      (store.removeServer id choice.applied, if choice.ok then some (.delete id) else none)
  | .delete id => (store.append (.remove id) choice.applied, none)
  | .reap maxAge =>
      let cutoff := cutoffOf choice.now maxAge
      (store, some (.mark cutoff store.log.length (store.copyState.staleNodes cutoff)))
  | .mark cutoff readAt stale =>
      match stale[choice.next]? with
      -- the loop has ended, or the schedule names a node that is not left
      | none => (store, if stale = [] then none else some (.mark cutoff readAt stale))
      | some node =>
          (store.append (.reap cutoff { node with healthy := false }) choice.applied,
            if choice.ok then some (.mark cutoff readAt (stale.eraseIdx choice.next)) else none)

/-- The calls. -/
inductive Call
  | heartbeat (id address : Bytes) (now : Int)
  | join (id address : Bytes)
  | remove (id : Bytes)
  | reapStale (maxAge : Int)
deriving DecidableEq, Repr

/-- A call before its first operation. -/
def Call.task : Call → Task
  | .heartbeat id address now => .beat id address (unixMilli now)
  | .join id address => .join id address
  | .remove id => .remove id
  | .reapStale maxAge => .reap maxAge

/-- The calls in flight on the leader. -/
abbrev Pool := Interleaving.Pool Store Task

/-- A new call, or the next operation of one in flight. -/
inductive Action
  | call (call : Call)
  | advance (index : Nat) (choice : Choice)
deriving DecidableEq, Repr

/-- One step of the leader. -/
def step (pool : Pool) : Action → Pool
  | .call call => Interleaving.step perform pool (.spawn call.task)
  | .advance index choice => Interleaving.step perform pool (.advance index choice)

/-- The leader of an empty cluster. -/
def start : Pool := ⟨{}, []⟩

/-! ## The state machine, one node at a time -/

theorem ClusterNode.decoded_decoded (node : ClusterNode) : node.decoded.decoded = node.decoded := by
  simp only [ClusterNode.decoded, Utf8.repair_repair]

@[simp] theorem fsm_concat (log : List Entry) (entry : Entry) :
    fsm (log ++ [entry]) = (fsm log).applyEntry entry := by
  simp [fsm]

theorem lookup_upsert (state : ClusterState) (node : ClusterNode) (id : Bytes) :
    (state.apply (.upsert node)).nodes.lookup id =
      if id = node.id then some node else state.nodes.lookup id := by
  convert SortedTable.lookup_put state.nodes node.id node id
  rfl

theorem lookup_applyEntry (state : ClusterState) (entry : Entry) (id : Bytes) :
    (state.applyEntry entry).nodes.lookup id =
      if id = entry.target then entry.result else state.nodes.lookup id := by
  cases entry with
  | beat node => exact lookup_upsert state node id
  | reap cutoff node => exact lookup_upsert state node id
  | remove removed =>
      show (state.nodes.restrict fun other => other ≠ removed).lookup id =
        if id = removed then none else state.nodes.lookup id
      rw [SortedTable.lookup_restrict]
      by_cases hid : id = removed
      · simp [hid]
      · simp [hid]

end Ubiq.Cluster
