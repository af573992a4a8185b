import Ubiq.Foundation.Bytes
import Ubiq.Foundation.Execution
import Ubiq.Foundation.Slots
import Ubiq.Foundation.Table

/-!
# Membership of the Zig cluster and write fencing

`Membership` of `cluster_control.zig`. The slice `nodes[0..len]` of its array is a list that is
no longer than the capacity. Epochs, fence generations and times are natural numbers: the model
is about runs in which no `u64` overflows.

`Effect` says what a call can do. From it follow the shape of every reachable state
(`WellFormed`), the growth of both counters, and that a generation older than a departure, an
expiry or an explicit advance authorises no write any more (`membership_fencing`).
-/

namespace Ubiq.ClusterControl

open Foundation

inductive Error
  | capacityExceeded
  | duplicateNode
  | unknownNode
  | unauthenticated
  | staleEpoch
  | nodeUnhealthy
  | staleFence
  | invalidHeartbeatTimeout
deriving DecidableEq, Repr

structure Node where
  id : Bytes
  healthy : Bool := true
  lastHeartbeatMs : Nat
  joinedEpoch : Nat
deriving DecidableEq, Repr

structure Membership (capacity : Nat) where
  nodes : List Node
  epoch : Nat := 0
  fenceGeneration : Nat := 0
  bounded : nodes.length ≤ capacity

/-- The membership before its first call. -/
def Membership.empty (capacity : Nat) : Membership capacity where
  nodes := []
  bounded := Nat.zero_le capacity

/-- The node after a heartbeat. -/
def Node.beat (nowMs : Nat) (node : Node) : Node :=
  { node with lastHeartbeatMs := nowMs, healthy := true }

/-- The node after its expiry. -/
def Node.expire (node : Node) : Node :=
  { node with healthy := false }

/-- The nodes that `expireUnhealthy` marks. -/
def Node.overdue (nowMs timeoutMs : Nat) (node : Node) : Bool :=
  node.healthy && decide (nowMs ≥ node.lastHeartbeatMs) &&
    decide (nowMs - node.lastHeartbeatMs > timeoutMs)

namespace Membership

variable {capacity : Nat}

def find (membership : Membership capacity) (id : Bytes) : Option Nat :=
  membership.nodes.findIdx? fun node => node.id = id

def join (membership : Membership capacity) (id : Bytes) (authenticated : Bool) (nowMs : Nat) :
    Membership capacity × Except Error Nat :=
  if !authenticated then (membership, .error .unauthenticated)
  else if (membership.find id).isSome then (membership, .error .duplicateNode)
  else if h : membership.nodes.length = capacity then (membership, .error .capacityExceeded)
  else
    ({ nodes := membership.nodes ++
        [{ id := id, healthy := true, lastHeartbeatMs := nowMs, joinedEpoch := membership.epoch + 1 }]
       epoch := membership.epoch + 1
       fenceGeneration := membership.fenceGeneration
       bounded := Slots.length_concat_le _ (lt_of_le_of_ne membership.bounded h) },
      .ok (membership.epoch + 1))

/-- The nodes after the loop of `leave` and the decrement of `len`. -/
def remove (membership : Membership capacity) (index : Nat) : List Node :=
  (Table.shiftDown membership.nodes.length membership.nodes index).dropLast

theorem length_remove_le (membership : Membership capacity) (index : Nat) :
    (membership.remove index).length ≤ capacity := by
  have hbounded := membership.bounded
  rw [remove, List.length_dropLast, Table.length_shiftDown]
  omega

def leave (membership : Membership capacity) (id : Bytes) :
    Membership capacity × Except Error Nat :=
  match membership.find id with
  | none => (membership, .error .unknownNode)
  | some index =>
      ({ nodes := membership.remove index
         epoch := membership.epoch + 1
         fenceGeneration := membership.fenceGeneration + 1
         bounded := length_remove_le membership index },
        .ok (membership.epoch + 1))

def heartbeat (membership : Membership capacity) (id : Bytes) (claimedEpoch nowMs : Nat) :
    Membership capacity × Except Error Unit :=
  if claimedEpoch ≠ membership.epoch then (membership, .error .staleEpoch)
  else
    match membership.find id with
    | none => (membership, .error .unknownNode)
    | some index =>
        ({ nodes := membership.nodes.modify index (.beat nowMs)
           epoch := membership.epoch
           fenceGeneration := membership.fenceGeneration
           bounded := Slots.length_modify_le membership.bounded index (.beat nowMs) },
          .ok ())

/-- The number of nodes that `expireUnhealthy` marks. -/
def overdueCount (membership : Membership capacity) (nowMs timeoutMs : Nat) : Nat :=
  Table.affected (Node.overdue nowMs timeoutMs) membership.nodes

theorem length_update_le (membership : Membership capacity) (test : Node → Bool)
    (change : Node → Node) : (Table.update test change membership.nodes).length ≤ capacity := by
  rw [Table.update, List.length_map]
  exact membership.bounded

/-- The state after the loop of `expireUnhealthy`; the counters move when a node expired. -/
def expired (membership : Membership capacity) (nowMs timeoutMs : Nat) : Membership capacity where
  nodes := Table.update (Node.overdue nowMs timeoutMs) Node.expire membership.nodes
  epoch :=
    if membership.overdueCount nowMs timeoutMs ≠ 0 then membership.epoch + 1 else membership.epoch
  fenceGeneration :=
    if membership.overdueCount nowMs timeoutMs ≠ 0 then membership.fenceGeneration + 1
    else membership.fenceGeneration
  bounded := length_update_le membership (Node.overdue nowMs timeoutMs) Node.expire

def expireUnhealthy (membership : Membership capacity) (nowMs timeoutMs : Nat) :
    Membership capacity × Except Error Nat :=
  if timeoutMs = 0 then (membership, .error .invalidHeartbeatTimeout)
  else (membership.expired nowMs timeoutMs, .ok (membership.overdueCount nowMs timeoutMs))

def advanceFence (membership : Membership capacity) : Membership capacity × Nat :=
  ({ membership with fenceGeneration := membership.fenceGeneration + 1 },
    membership.fenceGeneration + 1)

def validateWrite (membership : Membership capacity) (nodeId : Bytes) (generation : Nat) :
    Except Error Unit :=
  match (membership.find nodeId).bind fun index => membership.nodes[index]? with
  | none => .error .unknownNode
  | some node =>
      if !node.healthy then .error .nodeUnhealthy
      else if generation ≠ membership.fenceGeneration then .error .staleFence
      else .ok ()

end Membership

/-! ## Runs -/

/-- The calls that change the state. -/
inductive Action
  | join (id : Bytes) (authenticated : Bool) (nowMs : Nat)
  | leave (id : Bytes)
  | heartbeat (id : Bytes) (claimedEpoch nowMs : Nat)
  | expireUnhealthy (nowMs timeoutMs : Nat)
  | advanceFence
deriving DecidableEq, Repr

/-- What a call returns: an epoch, a number of nodes, a generation, nothing or an error. -/
inductive Reply
  | epoch (value : Nat)
  | expired (count : Nat)
  | generation (value : Nat)
  | done
  | failed (err : Error)
deriving DecidableEq, Repr

/-- The reply for a result, given the reply for its value. -/
def Reply.of {α : Type} (value : α → Reply) : Except Error α → Reply
  | .ok result => value result
  | .error err => .failed err

/-- A call with its result as a reply. -/
def respond {σ α : Type} (value : α → Reply) (call : σ × Except Error α) : σ × Reply :=
  (call.1, .of value call.2)

namespace Membership

variable {capacity : Nat} {membership next : Membership capacity} {id : Bytes} {action : Action}

/-- A call on the membership. -/
def perform (membership : Membership capacity) : Action → Membership capacity × Reply
  | .join id authenticated nowMs => respond .epoch (membership.join id authenticated nowMs)
  | .leave id => respond .epoch (membership.leave id)
  | .heartbeat id claimedEpoch nowMs =>
      respond (fun _ => .done) (membership.heartbeat id claimedEpoch nowMs)
  | .expireUnhealthy nowMs timeoutMs =>
      respond .expired (membership.expireUnhealthy nowMs timeoutMs)
  | .advanceFence => (membership.advanceFence.1, .generation membership.advanceFence.2)

/-- The state after a run from the empty membership. -/
def reached (capacity : Nat) (actions : List Action) : Membership capacity :=
  Execution.run (Execution.after perform) (empty capacity) actions

/-- A call that fences off the generations before it: a departure, an expiry of at least one node
or an explicit advance. -/
def Fences (membership : Membership capacity) (action : Action) : Prop :=
  match action, (membership.perform action).2 with
  | .leave _, .epoch _ => True
  | .expireUnhealthy _ _, .expired count => count ≠ 0
  | .advanceFence, .generation _ => True
  | _, _ => False

/-! ## What a call can do -/

/-- The effects of a call, with what makes each of them possible. -/
inductive Effect (membership : Membership capacity) :
    Action → Membership capacity → Reply → Prop
  | failed (action : Action) (err : Error) : Effect membership action membership (.failed err)
  | joined (id : Bytes) (authenticated : Bool) (nowMs : Nat) (next : Membership capacity)
      (hnew : ∀ node ∈ membership.nodes, node.id ≠ id)
      (hnodes : next.nodes = membership.nodes ++
        [{ id := id, lastHeartbeatMs := nowMs, joinedEpoch := membership.epoch + 1 }])
      (hepoch : next.epoch = membership.epoch + 1)
      (hfence : next.fenceGeneration = membership.fenceGeneration) :
      Effect membership (.join id authenticated nowMs) next (.epoch (membership.epoch + 1))
  | left (id : Bytes) (index : Nat) (next : Membership capacity)
      (hfind : membership.find id = some index)
      (hnodes : next.nodes = membership.nodes.eraseIdx index)
      (hepoch : next.epoch = membership.epoch + 1)
      (hfence : next.fenceGeneration = membership.fenceGeneration + 1) :
      Effect membership (.leave id) next (.epoch (membership.epoch + 1))
  | beaten (id : Bytes) (claimedEpoch nowMs index : Nat) (next : Membership capacity)
      (hnodes : next.nodes = membership.nodes.modify index (.beat nowMs))
      (hepoch : next.epoch = membership.epoch)
      (hfence : next.fenceGeneration = membership.fenceGeneration) :
      Effect membership (.heartbeat id claimedEpoch nowMs) next .done
  | expired (nowMs timeoutMs : Nat) :
      Effect membership (.expireUnhealthy nowMs timeoutMs) (membership.expired nowMs timeoutMs)
        (.expired (membership.overdueCount nowMs timeoutMs))
  | advanced :
      Effect membership .advanceFence membership.advanceFence.1
        (.generation (membership.fenceGeneration + 1))

theorem find_eq_none (h : membership.find id = none) :
    ∀ node ∈ membership.nodes, node.id ≠ id := by
  intro node hmem heq
  have hall := List.findIdx?_eq_none_iff.mp h node hmem
  simp [heq] at hall

theorem remove_eq {index : Nat} (h : membership.find id = some index) :
    membership.remove index = membership.nodes.eraseIdx index := by
  obtain ⟨hlt, -, -⟩ := List.findIdx?_eq_some_iff_getElem.mp h
  exact Table.dropLast_shiftDown_eq_eraseIdx hlt

theorem effect_perform (membership : Membership capacity) (action : Action) :
    Effect membership action (membership.perform action).1 (membership.perform action).2 := by
  cases action with
  | join id authenticated nowMs =>
      simp only [perform, join]
      split
      · exact .failed _ _
      · split
        · exact .failed _ _
        · next hfresh =>
            split
            · exact .failed _ _
            · exact .joined id authenticated nowMs _ (find_eq_none (by simpa using hfresh)) rfl rfl rfl
  | leave id =>
      cases hfind : membership.find id with
      | none =>
          simp only [perform, leave, hfind]
          exact .failed _ _
      | some index =>
          simp only [perform, leave, hfind]
          exact .left id index _ hfind (remove_eq hfind) rfl rfl
  | heartbeat id claimedEpoch nowMs =>
      simp only [perform, heartbeat]
      split
      · exact .failed _ _
      · split
        · exact .failed _ _
        · next index _ => exact .beaten id claimedEpoch nowMs index _ rfl rfl rfl
  | expireUnhealthy nowMs timeoutMs =>
      simp only [perform, expireUnhealthy]
      split
      · exact .failed _ _
      · exact .expired nowMs timeoutMs
  | advanceFence => exact .advanced

/-! ## Reachable states -/

/-- Ids are distinct, and nodes stand in the order of their joins. -/
structure WellFormed (membership : Membership capacity) : Prop where
  distinct : (membership.nodes.map Node.id).Nodup
  ordered : (membership.nodes.map Node.joinedEpoch).Pairwise (· < ·)
  joined_le : ∀ node ∈ membership.nodes, node.joinedEpoch ≤ membership.epoch

namespace WellFormed

/-- A call that keeps the ids and the joining epochs. -/
theorem of_map_eq (h : WellFormed membership)
    (hids : next.nodes.map Node.id = membership.nodes.map Node.id)
    (hjoined : next.nodes.map Node.joinedEpoch = membership.nodes.map Node.joinedEpoch)
    (hepoch : membership.epoch ≤ next.epoch) : WellFormed next where
  distinct := hids.symm ▸ h.distinct
  ordered := hjoined.symm ▸ h.ordered
  joined_le := by
    intro node hmem
    have hold : node.joinedEpoch ∈ membership.nodes.map Node.joinedEpoch :=
      hjoined ▸ List.mem_map.mpr ⟨node, hmem, rfl⟩
    obtain ⟨old, hmem', heq⟩ := List.mem_map.mp hold
    exact heq ▸ (h.joined_le old hmem').trans hepoch

theorem of_sublist (h : WellFormed membership) (hnodes : next.nodes.Sublist membership.nodes)
    (hepoch : membership.epoch ≤ next.epoch) : WellFormed next where
  distinct := h.distinct.sublist (hnodes.map Node.id)
  ordered := h.ordered.sublist (hnodes.map Node.joinedEpoch)
  joined_le := fun node hmem => (h.joined_le node (hnodes.subset hmem)).trans hepoch

theorem concat (h : WellFormed membership) {node : Node}
    (hnew : ∀ other ∈ membership.nodes, other.id ≠ node.id)
    (hnode : node.joinedEpoch = membership.epoch + 1)
    (hnodes : next.nodes = membership.nodes ++ [node]) (hepoch : next.epoch = membership.epoch + 1) :
    WellFormed next where
  distinct := by
    rw [hnodes]
    exact Keyed.nodup_concat h.distinct hnew
  ordered := by
    rw [hnodes, List.map_append, List.pairwise_append]
    refine ⟨h.ordered, List.pairwise_singleton _ _, ?_⟩
    intro joined hjoined _ hlast
    obtain ⟨old, hmem, rfl⟩ := List.mem_map.mp hjoined
    rw [List.map_singleton, List.mem_singleton] at hlast
    have hle := h.joined_le old hmem
    omega
  joined_le := by
    intro other hmem
    rw [hnodes, List.mem_append, List.mem_singleton] at hmem
    rw [hepoch]
    rcases hmem with hold | rfl
    · exact (h.joined_le other hold).trans (Nat.le_succ _)
    · exact hnode.le

/-- **Step lemma.** -/
theorem step {reply : Reply} (h : WellFormed membership)
    (heffect : Effect membership action next reply) : WellFormed next := by
  cases heffect with
  | failed err => exact h
  | joined id authenticated nowMs _ hnew hnodes hepoch hfence =>
      exact h.concat hnew rfl hnodes hepoch
  | left id index _ hfind hnodes hepoch hfence =>
      exact h.of_sublist (hnodes ▸ List.eraseIdx_sublist _ index) (hepoch ▸ Nat.le_succ _)
  | beaten id claimedEpoch nowMs index _ hnodes hepoch hfence =>
      refine h.of_map_eq ?_ ?_ hepoch.ge
      · rw [hnodes]
        exact Table.map_key_modify (fun node => (rfl : (node.beat nowMs).id = node.id)) index
      · rw [hnodes]
        exact Table.map_key_modify
          (fun node => (rfl : (node.beat nowMs).joinedEpoch = node.joinedEpoch)) index
  | expired nowMs timeoutMs =>
      refine h.of_map_eq (Table.map_key_update fun _ => rfl) (Table.map_key_update fun _ => rfl) ?_
      unfold expired
      dsimp only
      split <;> omega
  | advanced => exact h.of_map_eq rfl rfl le_rfl

end WellFormed

theorem wellFormed_reached (actions : List Action) : WellFormed (reached capacity actions) := by
  refine Execution.invariant_run_of_step
    (fun state action h => h.step (effect_perform state action)) ?_ actions
  exact ⟨List.nodup_nil, List.Pairwise.nil, fun node hmem => by cases hmem⟩

/-- Both counters only grow. -/
def Grows (membership next : Membership capacity) : Prop :=
  membership.epoch ≤ next.epoch ∧ membership.fenceGeneration ≤ next.fenceGeneration

theorem grows_step {reply : Reply} (heffect : Effect membership action next reply) :
    Grows membership next := by
  cases heffect with
  | failed err => exact ⟨le_rfl, le_rfl⟩
  | joined id authenticated nowMs _ hnew hnodes hepoch hfence =>
      exact ⟨hepoch ▸ Nat.le_succ _, hfence.ge⟩
  | left id index _ hfind hnodes hepoch hfence =>
      exact ⟨hepoch ▸ Nat.le_succ _, hfence ▸ Nat.le_succ _⟩
  | beaten id claimedEpoch nowMs index _ hnodes hepoch hfence => exact ⟨hepoch.ge, hfence.ge⟩
  | expired nowMs timeoutMs =>
      unfold Grows expired
      dsimp only
      split <;> omega
  | advanced => exact ⟨le_rfl, Nat.le_succ _⟩

theorem grows_run (membership : Membership capacity) (actions : List Action) :
    Grows membership (Execution.run (Execution.after perform) membership actions) := by
  refine Execution.invariant_run_of_step (fun state action h => ?_) ⟨le_rfl, le_rfl⟩ actions
  have hstep := grows_step (effect_perform state action)
  exact ⟨h.1.trans hstep.1, h.2.trans hstep.2⟩

theorem fence_lt_of_fences (h : Fences membership action) :
    membership.fenceGeneration < (membership.perform action).1.fenceGeneration := by
  have heffect := effect_perform membership action
  unfold Fences at h
  generalize membership.perform action = result at h heffect
  obtain ⟨next, reply⟩ := result
  dsimp only at h heffect ⊢
  cases heffect with
  | failed err => cases action <;> simp at h
  | joined id authenticated nowMs _ hnew hnodes hepoch hfence => exact h.elim
  | left id index _ hfind hnodes hepoch hfence => exact hfence ▸ Nat.lt_succ_self _
  | beaten id claimedEpoch nowMs index _ hnodes hepoch hfence => exact h.elim
  | expired nowMs timeoutMs =>
      show _ < if _ then _ else _
      rw [if_pos h]
      exact Nat.lt_succ_self _
  | advanced => exact Nat.lt_succ_self _

theorem validateWrite_of_lt {generation : Nat} (h : generation < membership.fenceGeneration)
    (nodeId : Bytes) : ∃ err, membership.validateWrite nodeId generation = .error err := by
  unfold validateWrite
  split
  · exact ⟨_, rfl⟩
  · rw [if_pos h.ne]
    split
    · exact ⟨_, rfl⟩
    · exact ⟨_, rfl⟩

theorem unchanged_of_failed {err : Error} (h : (membership.perform action).2 = .failed err) :
    (membership.perform action).1 = membership := by
  have heffect := effect_perform membership action
  rw [h] at heffect
  generalize (membership.perform action).1 = next at heffect ⊢
  cases heffect with
  | failed _ => rfl

theorem nodes_of_leave (hformed : WellFormed membership) {epoch : Nat}
    (h : (membership.leave id).2 = .ok epoch) :
    (∃ node ∈ membership.nodes, node.id = id) ∧
      (membership.leave id).1.nodes = membership.nodes.filter fun node => node.id ≠ id := by
  cases hfind : membership.find id with
  | none => simp [leave, hfind] at h
  | some index =>
      obtain ⟨hlt, hid, -⟩ := List.findIdx?_eq_some_iff_getElem.mp hfind
      refine ⟨⟨_, List.getElem_mem hlt, of_decide_eq_true hid⟩, ?_⟩
      simp only [leave, hfind]
      rw [remove_eq hfind, Keyed.eraseIdx_of_findIdx? hformed.distinct hfind]

/-! ## Fencing -/

/-- What writers rely on in a reachable state. -/
structure Guarantees (capacity : Nat) (actions : List Action) : Prop where
  /-- distinct ids, in the order of the joining epochs, none of them after the epoch -/
  formed : WellFormed (reached capacity actions)
  /-- the counters never decrease -/
  grows : ∀ later, Grows (reached capacity actions) (reached capacity (actions ++ later))
  /-- a failing call changes nothing -/
  unchanged : ∀ action err, ((reached capacity actions).perform action).2 = .failed err →
    ((reached capacity actions).perform action).1 = reached capacity actions
  /-- `leave` removes the node and keeps the others in order -/
  leaves : ∀ id epoch, ((reached capacity actions).leave id).2 = .ok epoch →
    (∃ node ∈ (reached capacity actions).nodes, node.id = id) ∧
      ((reached capacity actions).leave id).1.nodes =
        (reached capacity actions).nodes.filter fun node => node.id ≠ id
  /-- the generation of this state is refused for ever after a call that fences -/
  fenced : ∀ between action later nodeId, Fences (reached capacity (actions ++ between)) action →
    ∃ err, (reached capacity (actions ++ between ++ action :: later)).validateWrite nodeId
      (reached capacity actions).fenceGeneration = .error err

theorem reached_append (first second : List Action) :
    reached capacity (first ++ second) =
      Execution.run (Execution.after perform) (reached capacity first) second :=
  Execution.run_append _ _ _ _

/-- **Membership fencing.** -/
theorem membership_fencing (capacity : Nat) (actions : List Action) :
    Guarantees capacity actions where
  formed := wellFormed_reached actions
  grows := fun later => reached_append actions later ▸ grows_run _ later
  unchanged := fun action err => unchanged_of_failed
  leaves := fun id epoch => nodes_of_leave (wellFormed_reached actions)
  fenced := by
    intro between action later nodeId hfences
    have hread : (reached capacity actions).fenceGeneration ≤
        (reached capacity (actions ++ between)).fenceGeneration :=
      (reached_append actions between ▸ grows_run _ between).2
    have hstep := fence_lt_of_fences hfences
    have hlater := (grows_run (Execution.after perform (reached capacity (actions ++ between)) action)
      later).2
    rw [reached_append, Execution.run_cons]
    exact validateWrite_of_lt (hread.trans_lt (hstep.trans_le hlater)) nodeId

-- a node that left and joined again writes with the new generation only
example :
    let membership := reached 4 [.join (ascii "node-a") true 10, .advanceFence,
      .leave (ascii "node-a"), .join (ascii "node-a") true 20]
    membership.validateWrite (ascii "node-a") 1 = .error .staleFence ∧
      membership.validateWrite (ascii "node-a") 2 = .ok () := by decide +kernel

end Membership

end Ubiq.ClusterControl
