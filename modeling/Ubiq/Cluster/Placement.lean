import Ubiq.Cluster.Membership
import Ubiq.Cluster.Rendezvous

/-!
# Placement on both runtimes

`RaftCluster.Placement` of the Go runtime next to `shardFor` and `replicasFor` of the Zig core.
Both hash with FNV-1a, so the shards are the same. The scores are not: the Zig core mixes the
byte `0xff` between key and node id, the Go runtime a zero byte. `placements_agree_iff` says for
which memberships and keys the two select the same replicas all the same.
-/

namespace Ubiq.Cluster

open Foundation

/-! ## The Go runtime -/

/-- `sort.Slice`: it rearranges the slice so that no element is less than an earlier one, if
`less` is a strict weak order. The order of equal elements is not specified. -/
structure SliceSort where
  sort : {α : Type} → (α → α → Bool) → List α → List α
  perm : ∀ {α : Type} (less : α → α → Bool) (xs : List α), (sort less xs).Perm xs
  sorted : ∀ {α : Type} (less : α → α → Bool) (xs : List α),
    (∀ a b, less a b = true → less b a = false) →
    (∀ a b c, less a b = false → less b c = false → less a c = false) →
      (sort less xs).Pairwise fun a b => less b a = false

def fnv64 (s : Bytes) : UInt64 :=
  List.foldl (fun h byte => (h ^^^ byte.toUInt64) * 1099511628211) 14695981039346656037 s

def rendezvousScore (key node : Bytes) : UInt64 :=
  fnv64 (key ++ [0x00] ++ node)

structure ReplicaPlacement where
  epoch : UInt64
  shard : UInt32
  nodes : List ClusterNode
deriving DecidableEq, Repr

/-- The errors of `Placement`. -/
inductive PlacementError
  /-- `invalid shard/replication values` -/
  | invalidValues
  /-- `not enough healthy nodes` -/
  | notEnoughHealthyNodes
deriving DecidableEq, Repr

namespace ClusterState

/-- `State`; the rows of the table stand for the iteration over the Go map. -/
def state (sorter : SliceSort) (fsm : ClusterState) : UInt64 × List ClusterNode :=
  (fsm.epoch, sorter.sort (fun first second => first.id < second.id) (fsm.nodes.rows.map Prod.snd))

/-- The healthy nodes with their scores, in the order of the scores. -/
def scores (sorter : SliceSort) (key : Bytes) (healthy : List ClusterNode) :
    List (ClusterNode × UInt64) :=
  sorter.sort (fun first second => first.2 > second.2)
    (healthy.map fun node => (node, rendezvousScore key node.id))

def placement (sorter : SliceSort) (fsm : ClusterState) (key : Bytes) (shardCount : UInt32)
    (replication : Int) : Except PlacementError ReplicaPlacement :=
  if shardCount = 0 ∨ replication ≤ 0 then .error .invalidValues
  else
    let healthy := (fsm.state sorter).2.filter ClusterNode.healthy
    if (healthy.length : Int) < replication then .error .notEnoughHealthyNodes
    else
      .ok {
        epoch := (fsm.state sorter).1
        shard := (fnv64 key % shardCount.toUInt64).toUInt32
        nodes := ((scores sorter key healthy).take replication.toNat).map Prod.fst }

end ClusterState

/-! ## The order of the scores -/

/-- The node with the higher score comes first. -/
def Ahead (score : Bytes → UInt64) (first second : Bytes) : Prop :=
  score second < score first

instance (score : Bytes → UInt64) : DecidableRel (Ahead score) := fun first second =>
  inferInstanceAs (Decidable (score second < score first))

namespace ClusterState

variable {sorter : SliceSort} {fsm : ClusterState} {key : Bytes}

/-- The sorted scores are the scores of the nodes, the highest first. -/
theorem ranked_scores (sorter : SliceSort) (key : Bytes) (healthy : List ClusterNode)
    (hdistinct : (healthy.map fun node => rendezvousScore key node.id).Nodup) :
    Ranking.Ranked (Ahead (rendezvousScore key)) (healthy.map ClusterNode.id)
      ((scores sorter key healthy).map fun scored => scored.1.id) := by
  have hperm : (scores sorter key healthy).Perm
      (healthy.map fun node => (node, rendezvousScore key node.id)) := sorter.perm _ _
  have hscored : ∀ scored ∈ scores sorter key healthy,
      scored.2 = rendezvousScore key scored.1.id := by
    intro scored hmem
    obtain ⟨node, -, rfl⟩ := List.mem_map.mp (hperm.subset hmem)
    rfl
  have hnodup : ((scores sorter key healthy).map Prod.snd).Nodup := by
    rw [(hperm.map Prod.snd).nodup_iff, List.map_map]
    exact hdistinct
  have hsorted : (scores sorter key healthy).Pairwise fun first second =>
      decide (second.2 > first.2) = false := by
    refine sorter.sorted _ _ ?_ ?_
    · intro first second h
      simp only [gt_iff_lt, decide_eq_true_eq, decide_eq_false_iff_not] at h ⊢
      exact UInt64.lt_asymm h
    · intro first second third h h'
      simp only [gt_iff_lt, decide_eq_false_iff_not, UInt64.not_lt] at h h' ⊢
      exact UInt64.le_trans h h'
  constructor
  · have hids := hperm.map fun scored => scored.1.id
    rwa [List.map_map] at hids
  · rw [List.pairwise_map]
    refine (hsorted.and (List.pairwise_map.mp hnodup)).imp_of_mem ?_
    rintro first second hfirst hsecond ⟨hnot, hne⟩
    simp only [gt_iff_lt, decide_eq_false_iff_not, UInt64.not_lt] at hnot
    rw [Ahead, ← hscored first hfirst, ← hscored second hsecond]
    exact UInt64.lt_of_le_of_ne hnot hne.symm

theorem placement_of_valid {shardCount : UInt32} {factor : Nat} (hcount : shardCount ≠ 0)
    (hpos : factor ≠ 0)
    (henough : factor ≤ ((fsm.state sorter).2.filter ClusterNode.healthy).length) :
    fsm.placement sorter key shardCount factor =
      .ok {
        epoch := fsm.epoch
        shard := (fnv64 key % shardCount.toUInt64).toUInt32
        nodes := ((scores sorter key ((fsm.state sorter).2.filter ClusterNode.healthy)).take
          factor).map Prod.fst } := by
  unfold placement
  rw [if_neg (by simp [hcount, hpos]), if_neg (by omega)]
  rfl

end ClusterState

/-! ## Both runtimes -/

open Rendezvous (Node placementScore)
open Rendezvous.Cluster (healthyNodes DistinctScores)

variable {maxNodes : Nat}

/-- Both runtimes know the same node ids with the same health flags. -/
def SameMembership (cluster : Rendezvous.Cluster maxNodes) (fsm : ClusterState) : Prop :=
  (cluster.nodes.map fun node => (node.id, node.healthy)).Perm
    ((fsm.nodes.rows.map Prod.snd).map fun node => (node.id, node.healthy))

/-- The ids of the healthy nodes. -/
def healthyIds (cluster : Rendezvous.Cluster maxNodes) : List Bytes :=
  (healthyNodes cluster.nodes).map Node.id

/-- The memberships, keys and factors on which placements are compared: the same nodes, no more
replicas than healthy nodes, and no two healthy nodes with the same score. -/
structure Comparable (cluster : Rendezvous.Cluster maxNodes) (fsm : ClusterState) (key : Bytes)
    (factor : Nat) : Prop where
  distinct : (cluster.nodes.map Node.id).Nodup
  same : SameMembership cluster fsm
  enough : factor ≤ (healthyIds cluster).length
  zigScores : ((healthyIds cluster).map (placementScore key)).Nodup
  goScores : ((healthyIds cluster).map (rendezvousScore key)).Nodup

/-- Both runtimes fail, or give the same shard and the same set of replicas. -/
def PlacementsAgree (sorter : SliceSort) (cluster : Rendezvous.Cluster maxNodes)
    (fsm : ClusterState) (key : Bytes) (shardCount : UInt32) (factor : Nat) : Prop :=
  match fsm.placement sorter key shardCount factor with
  | .ok placement => cluster.shardFor key shardCount = .ok placement.shard ∧
      ∃ ids, cluster.replicaIds key factor = .ok ids ∧ ids.Perm (placement.nodes.map ClusterNode.id)
  | .error _ => (∃ err, cluster.shardFor key shardCount = .error err) ∨
      ∃ err, cluster.replicaIds key factor = .error err

/-- The number of healthy nodes with a higher score. -/
def rank (cluster : Rendezvous.Cluster maxNodes) (score : Bytes → UInt64) (id : Bytes) : Nat :=
  (healthyIds cluster).countP fun other => score id < score other

section Agreement

variable {sorter : SliceSort} {cluster : Rendezvous.Cluster maxNodes} {fsm : ClusterState}
  {key : Bytes}

theorem healthyIds_perm (sorter : SliceSort) (h : SameMembership cluster fsm) :
    (healthyIds cluster).Perm
      (((fsm.state sorter).2.filter ClusterNode.healthy).map ClusterNode.id) := by
  have hsorted : ((fsm.state sorter).2).Perm (fsm.nodes.rows.map Prod.snd) := sorter.perm _ _
  have hflags := ((h.trans (hsorted.map _).symm).filter Prod.snd).map Prod.fst
  rw [List.filter_map, List.filter_map, List.map_map, List.map_map] at hflags
  exact hflags

/-- The ids that the Zig core selects, as a prefix of a ranking by score. -/
theorem exists_ranked_replicaIds (hdistinct : DistinctScores key cluster.nodes) :
    ∃ ranked, Ranking.Ranked (Ahead (placementScore key)) (healthyIds cluster) ranked ∧
      ∀ factor, factor ≠ 0 → factor ≤ (healthyIds cluster).length →
        cluster.replicaIds key factor = .ok (ranked.take factor) := by
  obtain ⟨positions, hpositions⟩ := cluster.exists_ranks key
  have hranked := Rendezvous.Cluster.ranked_nodesAt hpositions hdistinct
  refine ⟨(cluster.nodesAt positions).map Node.id,
    hranked.map Node.id fun _ _ _ _ houtscores => houtscores, fun factor hpos hle => ?_⟩
  have hlength : (healthyIds cluster).length ≤ maxNodes := by
    rw [healthyIds, List.length_map]
    exact (List.length_filter_le _ _).trans cluster.bounded
  have hsome : cluster.nodesAt positions ≠ [] := by
    rw [hranked.ne_nil_iff]
    intro hnil
    rw [healthyIds, hnil, List.map_nil, List.length_nil] at hle
    omega
  rw [Rendezvous.Cluster.replicaIds_eq hdistinct hranked, if_neg (by omega), if_neg hsome,
    List.map_take]

/-- **Agreement of the runtimes.** For distinct scores, and no more replicas than healthy nodes,
both place a key alike exactly when the shard count is zero, which both refuse, or when every
healthy node is among the replicas by both scores or by neither. -/
theorem placements_agree_iff (sorter : SliceSort) (cluster : Rendezvous.Cluster maxNodes)
    (fsm : ClusterState) (key : Bytes) (shardCount : UInt32) (factor : Nat)
    (h : Comparable cluster fsm key factor) :
    PlacementsAgree sorter cluster fsm key shardCount factor ↔
      shardCount = 0 ∨ ∀ id ∈ healthyIds cluster,
        rank cluster (placementScore key) id < factor ↔
          rank cluster (rendezvousScore key) id < factor := by
  have hperm := healthyIds_perm sorter h.same
  by_cases hcount : shardCount = 0
  · refine iff_of_true ?_ (Or.inl hcount)
    have hrefused : fsm.placement sorter key shardCount factor = .error .invalidValues := if_pos (Or.inl hcount)
    rw [PlacementsAgree, hrefused]
    exact Or.inl ⟨_, if_pos hcount⟩
  by_cases hpos : factor = 0
  · refine iff_of_true ?_ (Or.inr fun id _ => by simp [hpos])
    have hrefused : fsm.placement sorter key shardCount factor = .error .invalidValues :=
      if_pos (Or.inr (by simp [hpos]))
    rw [PlacementsAgree, hrefused]
    refine Or.inr ⟨.invalidReplicationFactor, ?_⟩
    rw [Rendezvous.Cluster.replicaIds, Rendezvous.Cluster.replicasFor, if_pos (Or.inl hpos)]
    rfl
  have hnodup : (healthyIds cluster).Nodup := h.distinct.sublist (List.filter_sublist.map Node.id)
  have hdistinct : DistinctScores key cluster.nodes := by
    have hzig := h.zigScores
    rw [healthyIds, List.map_map] at hzig
    exact hzig
  obtain ⟨ranked, hranked, hreplicas⟩ := exists_ranked_replicaIds hdistinct
  have hscores : (((fsm.state sorter).2.filter ClusterNode.healthy).map
      fun node => rendezvousScore key node.id).Nodup := by
    have hmapped := (hperm.map (rendezvousScore key)).nodup_iff.mp h.goScores
    rwa [List.map_map] at hmapped
  have hother := ClusterState.ranked_scores sorter key _ hscores
  have hroom : factor ≤ ((fsm.state sorter).2.filter ClusterNode.healthy).length := by
    have hlength := hperm.length_eq
    have henough := h.enough
    rw [List.length_map] at hlength
    omega
  have hshard : cluster.shardFor key shardCount =
      .ok (fnv64 key % shardCount.toUInt64).toUInt32 := if_neg hcount
  have hselected := Ranking.take_perm_take_iff (fun _ _ => UInt64.lt_asymm)
    (fun _ _ => UInt64.lt_asymm) hranked hother hperm hnodup factor
  rw [PlacementsAgree, ClusterState.placement_of_valid hcount hpos hroom]
  simp only [hshard, hreplicas factor hpos h.enough, true_and, Except.ok.injEq, exists_eq_left',
    hcount, false_or, List.map_map, List.map_take]
  exact hselected

end Agreement

/-! ## Two nodes -/

/-- Insertion sort, which `sort.Slice` uses on short slices. -/
def insertionSort : SliceSort where
  sort less xs := xs.insertionSort fun a b => less b a = false
  perm less xs := List.perm_insertionSort _ xs
  sorted less xs hasymm htrans := by
    have htotal : Std.Total fun a b => less b a = false := ⟨fun a b => by
      cases hless : less b a with
      | false => exact Or.inl rfl
      | true => exact Or.inr (hasymm b a hless)⟩
    have hchain : IsTrans _ fun a b => less b a = false := ⟨fun a b c hab hbc => htrans c b a hbc hab⟩
    exact List.pairwise_insertionSort _ xs

/-- Two healthy nodes of the Zig core. -/
def twoNodes : Rendezvous.Cluster 4 where
  nodes := [{ id := ascii "node-a" }, { id := ascii "node-b" }]
  bounded := by decide

/-- The same nodes on the Go runtime. -/
def twoNodesState : ClusterState :=
  fsm [.beat { id := ascii "node-a", address := ascii "10.0.0.1:7000", healthy := true, lastHeartbeatMs := 0 },
    .beat { id := ascii "node-b", address := ascii "10.0.0.2:7000", healthy := true, lastHeartbeatMs := 0 }]

theorem comparable_twoNodes {factor : Nat} (h : factor ≤ 2) :
    Comparable twoNodes twoNodesState (ascii "customer:42") factor := by
  have hrun : (twoNodes.nodes.map Node.id).Nodup ∧
      (twoNodes.nodes.map fun node => (node.id, node.healthy)).Perm
        ((twoNodesState.nodes.rows.map Prod.snd).map fun node => (node.id, node.healthy)) ∧
      ((healthyIds twoNodes).map (placementScore (ascii "customer:42"))).Nodup ∧
      ((healthyIds twoNodes).map (rendezvousScore (ascii "customer:42"))).Nodup := by
    decide +kernel
  exact ⟨hrun.1, hrun.2.1, h, hrun.2.2.1, hrun.2.2.2⟩

/-- The one replica of `customer:42` is `node-a` for the Zig core and `node-b` for the Go
runtime. -/
theorem not_placementsAgree_twoNodes :
    Comparable twoNodes twoNodesState (ascii "customer:42") 1 ∧
      ¬PlacementsAgree insertionSort twoNodes twoNodesState (ascii "customer:42") 64 1 := by
  have hrun : (twoNodesState.placement insertionSort (ascii "customer:42") 64 (1 : Nat)).map
          (fun placement => placement.nodes.map ClusterNode.id) = .ok [ascii "node-b"] ∧
      twoNodes.replicaIds (ascii "customer:42") 1 = .ok [ascii "node-a"] := by
    decide +kernel
  obtain ⟨hgo, hzig⟩ := hrun
  refine ⟨comparable_twoNodes (by decide), fun hagree => ?_⟩
  unfold PlacementsAgree at hagree
  split at hagree
  · next placement hplacement =>
      rw [hplacement] at hgo
      obtain ⟨-, ids, hids, hperm⟩ := hagree
      have hnodes : placement.nodes.map ClusterNode.id = [ascii "node-b"] := Except.ok.inj hgo
      obtain rfl : [ascii "node-a"] = ids := Except.ok.inj (hzig.symm.trans hids)
      rw [hnodes, List.singleton_perm_singleton] at hperm
      exact absurd hperm (by decide)
  · next err hplacement =>
      rw [hplacement] at hgo
      cases hgo

/-- With as many replicas as nodes there is nothing to choose. -/
theorem placementsAgree_twoNodes :
    PlacementsAgree insertionSort twoNodes twoNodesState (ascii "customer:42") 64 2 := by
  have hranks : ∀ id ∈ healthyIds twoNodes,
      rank twoNodes (placementScore (ascii "customer:42")) id < 2 ↔
        rank twoNodes (rendezvousScore (ascii "customer:42")) id < 2 := by decide +kernel
  exact (placements_agree_iff insertionSort twoNodes twoNodesState (ascii "customer:42") 64 2
    (comparable_twoNodes le_rfl)).mpr (Or.inr hranks)

end Ubiq.Cluster
