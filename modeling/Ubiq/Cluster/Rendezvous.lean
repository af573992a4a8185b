import Ubiq.Foundation.Bytes
import Ubiq.Foundation.Keyed
import Ubiq.Foundation.Ranking
import Ubiq.Foundation.Slots

/-!
# Replica placement of the Zig cluster

`Cluster` of `cluster.zig`: registration, health, and the placement of a key by the scores that
`placementScore` gives to the healthy nodes. The slice `nodes[0..len]` is a list that is no
longer than the capacity; a placement is the list of the selected positions.

The nested loops of `replicasFor` are a prefix of one ranking of the healthy positions
(`replicasFor_eq`): the higher score first, and the lower position among equals. That placements
move little when the health of a node changes, and that they do not depend on the order of
registration, are facts about prefixes of rankings.
-/

namespace Ubiq.Rendezvous

open Foundation

inductive ClusterError
  | clusterFull
  | duplicateNode
  | unknownNode
  | noHealthyNodes
  | invalidReplicationFactor
  | invalidShardCount
deriving DecidableEq, Repr

structure Node where
  id : Bytes
  healthy : Bool := true
deriving DecidableEq, Repr, Inhabited

/-! ## Hashes -/

/-- The start value of both hashes. -/
def offsetBasis : UInt64 := 14695981039346656037

/-- One byte of a hash. -/
def mix (hash : UInt64) (byte : UInt8) : UInt64 :=
  (hash ^^^ byte.toUInt64) * 1099511628211

def hash64 (bytes : Bytes) : UInt64 :=
  List.foldl mix offsetBasis bytes

def placementScore (key nodeId : Bytes) : UInt64 :=
  List.foldl mix (mix (List.foldl mix offsetBasis key) 0xff) nodeId

/-! ## The cluster -/

structure Cluster (maxNodes : Nat) where
  nodes : List Node
  bounded : nodes.length ≤ maxNodes
deriving DecidableEq

/-- The cluster before its first registration. -/
def Cluster.empty (maxNodes : Nat) : Cluster maxNodes where
  nodes := []
  bounded := Nat.zero_le maxNodes

/-- `Placement`: `node_indexes[0..len]`. -/
abbrev Placement := List Nat

namespace Cluster

variable {maxNodes factor : Nat} {other : Cluster maxNodes}

def find (cluster : Cluster maxNodes) (nodeId : Bytes) : Option Nat :=
  cluster.nodes.findIdx? fun node => node.id = nodeId

def register (cluster : Cluster maxNodes) (newNode : Node) :
    Cluster maxNodes × Except ClusterError Nat :=
  if (cluster.find newNode.id).isSome then (cluster, .error .duplicateNode)
  else if h : cluster.nodes.length ≥ maxNodes then (cluster, .error .clusterFull)
  else
    ({ nodes := cluster.nodes ++ [newNode], bounded := Slots.length_concat_le newNode (not_le.mp h) },
      .ok cluster.nodes.length)

def setHealthy (cluster : Cluster maxNodes) (nodeId : Bytes) (healthy : Bool) :
    Cluster maxNodes × Except ClusterError Unit :=
  match cluster.find nodeId with
  | none => (cluster, .error .unknownNode)
  | some index =>
      ({ nodes := cluster.nodes.modify index fun node => { node with healthy := healthy }
         bounded := Slots.length_modify_le cluster.bounded index _ },
        .ok ())

/-- `nodeAt`; positions come from placements, so that the default does not show. -/
def nodeAt (cluster : Cluster maxNodes) (index : Nat) : Node :=
  cluster.nodes.getD index default

/-- One step of the inner loop of `replicasFor`, on `best_index` and `best_score`. -/
def considerNode (cluster : Cluster maxNodes) (key : Bytes) (result : Placement)
    (best : Option Nat × UInt64) (i : Nat) : Option Nat × UInt64 :=
  if !(cluster.nodeAt i).healthy || result.contains i then best
  else
    let candidate := placementScore key (cluster.nodeAt i).id
    if best.1.isNone || decide (candidate > best.2) then (some i, candidate) else best

/-- The inner loop of `replicasFor`. -/
def bestIndex (cluster : Cluster maxNodes) (key : Bytes) (result : Placement) : Option Nat :=
  ((List.range cluster.nodes.length).foldl (cluster.considerNode key result) (none, 0)).1

/-- The outer loop of `replicasFor`, for the rounds that are left. -/
def selectReplicas (cluster : Cluster maxNodes) (key : Bytes) :
    Nat → Placement → Except ClusterError Placement
  | 0, result => .ok result
  | rounds + 1, result =>
      match cluster.bestIndex key result with
      | none => if result.length = 0 then .error .noHealthyNodes else .ok result
      | some selected => cluster.selectReplicas key rounds (result ++ [selected])

def replicasFor (cluster : Cluster maxNodes) (key : Bytes) (replicationFactor : Nat) :
    Except ClusterError Placement :=
  if replicationFactor = 0 ∨ replicationFactor > maxNodes then .error .invalidReplicationFactor
  else cluster.selectReplicas key replicationFactor []

def shardFor (_ : Cluster maxNodes) (key : Bytes) (shardCount : UInt32) :
    Except ClusterError UInt32 :=
  if shardCount = 0 then .error .invalidShardCount
  else .ok (hash64 key % shardCount.toUInt64).toUInt32

/-- The nodes of a placement. -/
def nodesAt (cluster : Cluster maxNodes) (placement : Placement) : List Node :=
  placement.map cluster.nodeAt

/-- The cluster that results from registering nodes one after the other. -/
def build (maxNodes : Nat) (nodes : List Node) : Except ClusterError (Cluster maxNodes) :=
  nodes.foldlM (fun cluster node => (cluster.register node).2.map fun _ => (cluster.register node).1)
    (empty maxNodes)

/-! ## Selection and ranking -/

/-- The score of the node at a position. -/
def score (cluster : Cluster maxNodes) (key : Bytes) (index : Nat) : Nat :=
  (placementScore key (cluster.nodeAt index).id).toNat

/-- The positions of the healthy nodes. -/
def healthyIndexes (cluster : Cluster maxNodes) : List Nat :=
  (List.range cluster.nodes.length).filter fun index => (cluster.nodeAt index).healthy

/-- The ranking of the healthy positions for a key. -/
def Ranks (cluster : Cluster maxNodes) (key : Bytes) (ranked : List Nat) : Prop :=
  Ranking.Ranked (Ranking.Precedes (cluster.score key)) cluster.healthyIndexes ranked

theorem pairwise_healthyIndexes (cluster : Cluster maxNodes) :
    cluster.healthyIndexes.Pairwise (· < ·) :=
  List.pairwise_lt_range.filter _

theorem exists_ranks (cluster : Cluster maxNodes) (key : Bytes) :
    ∃ ranked, cluster.Ranks key ranked :=
  Ranking.exists_ranked _ (cluster.pairwise_healthyIndexes.imp ne_of_lt)

/-- `best_score` is the score of `best_index`. -/
def Scored (cluster : Cluster maxNodes) (key : Bytes) (best : Option Nat × UInt64) : Prop :=
  ∀ index, best.1 = some index → best.2.toNat = cluster.score key index

section Scan

variable {cluster : Cluster maxNodes} {key : Bytes} {result : Placement} {index : Nat}
  {best : Option Nat × UInt64}

theorem considerNode_of_skip (h : (cluster.nodeAt index).healthy = false ∨ index ∈ result) :
    cluster.considerNode key result best index = best := by
  unfold considerNode
  rw [if_pos (by simpa using h)]

theorem considerNode_of_candidate (hhealthy : (cluster.nodeAt index).healthy = true)
    (hfresh : index ∉ result) (hbest : cluster.Scored key best) :
    (cluster.considerNode key result best index).1 =
        Ranking.consider (cluster.score key) best.1 index ∧
      cluster.Scored key (cluster.considerNode key result best index) := by
  have hscore : (placementScore key (cluster.nodeAt index).id).toNat = cluster.score key index := rfl
  obtain ⟨incumbent, incumbentScore⟩ := best
  unfold considerNode
  rw [if_neg (by simp [hhealthy, hfresh])]
  cases incumbent with
  | none =>
      refine ⟨rfl, fun found hfound => ?_⟩
      cases hfound
      exact hscore
  | some incumbent =>
      have hincumbent : incumbentScore.toNat = cluster.score key incumbent := hbest incumbent rfl
      simp only [Option.isNone_some, Bool.false_or, decide_eq_true_eq, gt_iff_lt,
        UInt64.lt_iff_toNat_lt, hincumbent, hscore, Ranking.consider]
      split
      · refine ⟨rfl, fun found hfound => ?_⟩
        cases hfound
        exact hscore
      · exact ⟨rfl, hbest⟩

end Scan

/-- The inner loop is a scan of the healthy positions that are not selected yet. -/
theorem foldl_considerNode (cluster : Cluster maxNodes) (key : Bytes) (result : Placement)
    (indexes : List Nat) {best : Option Nat × UInt64} (hbest : cluster.Scored key best) :
    (indexes.foldl (cluster.considerNode key result) best).1 =
      ((indexes.filter fun index => (cluster.nodeAt index).healthy).filter
        fun index => index ∉ result).foldl (Ranking.consider (cluster.score key)) best.1 := by
  induction indexes generalizing best with
  | nil => rfl
  | cons index rest ih =>
      rw [List.foldl_cons]
      cases hhealthy : (cluster.nodeAt index).healthy with
      | false =>
          rw [considerNode_of_skip (Or.inl hhealthy), ih hbest,
            List.filter_cons_of_neg (by simp [hhealthy])]
      | true =>
          rw [List.filter_cons_of_pos (by simp [hhealthy])]
          by_cases hchosen : index ∈ result
          · rw [considerNode_of_skip (Or.inr hchosen), ih hbest,
              List.filter_cons_of_neg (by simp [hchosen])]
          · obtain ⟨hconsider, hscored⟩ := considerNode_of_candidate hhealthy hchosen hbest
            rw [List.filter_cons_of_pos (by simp [hchosen]), List.foldl_cons, ih hscored, hconsider]

theorem bestIndex_eq (cluster : Cluster maxNodes) (key : Bytes) (result : Placement) :
    cluster.bestIndex key result =
      Ranking.best (cluster.score key) (cluster.healthyIndexes.filter fun index => index ∉ result) := by
  refine cluster.foldl_considerNode key result _ ?_
  intro index hindex
  cases hindex

variable {cluster : Cluster maxNodes} {key : Bytes} {ranked : List Nat} {index : Nat}

/-- The outer loop continues a prefix of the ranking. -/
theorem selectReplicas_take (h : cluster.Ranks key ranked) (hsome : ranked ≠ []) (rounds n : Nat) :
    cluster.selectReplicas key rounds (ranked.take n) = .ok (ranked.take (n + rounds)) := by
  induction rounds generalizing n with
  | zero => rfl
  | succ rounds ih =>
      have hbest : cluster.bestIndex key (ranked.take n) = ranked[n]? := by
        rw [bestIndex_eq, Ranking.best_filter_take cluster.pairwise_healthyIndexes h]
      unfold selectReplicas
      rw [hbest]
      cases hnext : ranked[n]? with
      | none =>
          have hlength := List.getElem?_eq_none_iff.mp hnext
          have hpos := List.length_pos_iff.mpr hsome
          simp only
          rw [List.take_of_length_le hlength, List.take_of_length_le (by omega), if_neg (by omega)]
      | some selected =>
          have hlonger : ranked.take n ++ [selected] = ranked.take (n + 1) := by
            rw [List.take_add_one, hnext]
            rfl
          simp only
          rw [hlonger, ih, Nat.add_assoc, Nat.add_comm 1]

/-- **Specification of `replicasFor`**: a prefix of the ranking. -/
theorem replicasFor_eq (h : cluster.Ranks key ranked) (factor : Nat) :
    cluster.replicasFor key factor =
      if factor = 0 ∨ factor > maxNodes then .error .invalidReplicationFactor
      else if ranked = [] then .error .noHealthyNodes else .ok (ranked.take factor) := by
  unfold replicasFor
  split
  · rfl
  · next hrange =>
      by_cases hempty : ranked = []
      · obtain ⟨rounds, rfl⟩ : ∃ rounds, factor = rounds + 1 := ⟨factor - 1, by omega⟩
        have hnone : cluster.bestIndex key [] = none := by
          rw [bestIndex_eq]
          have hhealthy : cluster.healthyIndexes = [] := (hempty ▸ h.perm).nil_eq.symm
          rw [hhealthy]
          rfl
        rw [if_pos hempty, selectReplicas, hnone]
        rfl
      · have hloop := selectReplicas_take h hempty factor 0
        rw [List.take_zero, Nat.zero_add] at hloop
        rw [if_neg hempty, hloop]

theorem eq_take_of_replicasFor (h : cluster.Ranks key ranked) {placement : Placement}
    (hok : cluster.replicasFor key factor = .ok placement) : placement = ranked.take factor := by
  rw [replicasFor_eq h] at hok
  split at hok
  · cases hok
  · split at hok
    · cases hok
    · exact (Except.ok.inj hok).symm

/-! ## One node fails or joins -/

/-- The ranking for a key determines the scores and the health that it looks at. -/
theorem Ranks.of_filter (h : cluster.Ranks key ranked) {test : Nat → Bool}
    (hhealthy : other.healthyIndexes = cluster.healthyIndexes.filter test)
    (hscore : ∀ index ∈ other.healthyIndexes, other.score key index = cluster.score key index) :
    other.Ranks key (ranked.filter test) := by
  have hfiltered := h.filter test
  rw [← hhealthy] at hfiltered
  refine hfiltered.imp fun first hfirst second hsecond hprecedes => ?_
  rw [Ranking.Precedes, hscore first hfirst, hscore second hsecond]
  exact hprecedes

theorem Ranks.nodup (h : cluster.Ranks key ranked) : ranked.Nodup :=
  h.perm.nodup_iff.mpr (cluster.pairwise_healthyIndexes.imp ne_of_lt)

theorem mem_healthyIndexes :
    index ∈ cluster.healthyIndexes ↔
      index < cluster.nodes.length ∧ (cluster.nodeAt index).healthy = true := by
  simp [healthyIndexes]

/-- A placement after its node `index` failed: without it, and with at most one new node. -/
def WithoutNode (old : Placement) (index : Nat) (new : Placement) : Prop :=
  (index ∉ old → new = old) ∧
    (index ∈ old → ∃ extra : List Nat, extra.length ≤ 1 ∧ (∀ other ∈ extra, other ∉ old) ∧
      new = old.filter (· ≠ index) ++ extra)

/-- A placement after the node `index` joined: as before, or with the node and without at most
the last one. -/
def WithNode (old : Placement) (index : Nat) (new : Placement) : Prop :=
  new = old ∨ ∃ front back gone : List Nat, gone.length ≤ 1 ∧ old = front ++ back ++ gone ∧
    new = front ++ index :: back

/-- A ranking around one of its positions. -/
theorem exists_split_of_mem (hnodup : ranked.Nodup) (hmem : index ∈ ranked) :
    ∃ front back, ranked = front ++ index :: back ∧ index ∉ front ++ back ∧
      ranked.filter (· ≠ index) = front ++ back := by
  obtain ⟨front, back, rfl⟩ := List.append_of_mem hmem
  have hfresh : index ∉ front ++ back := (List.nodup_middle.mp hnodup).notMem
  have hkeep : ∀ other ∈ front ++ back, decide (other ≠ index) = true := by
    intro other hother
    exact decide_eq_true fun heq => hfresh (heq ▸ hother)
  refine ⟨front, back, rfl, hfresh, ?_⟩
  rw [List.filter_append, List.filter_cons_of_neg (by simp), ← List.filter_append,
    List.filter_eq_self.mpr hkeep]

theorem withoutNode_take (hnodup : ranked.Nodup) (hmem : index ∈ ranked) (k : Nat) :
    WithoutNode (ranked.take k) index ((ranked.filter (· ≠ index)).take k) := by
  obtain ⟨front, back, hranked, hfresh, hfilter⟩ := exists_split_of_mem hnodup hmem
  have hnew : ((front ++ back).take k).Nodup := by
    rw [← hfilter]
    exact (hnodup.filter _).take
  rw [hfilter, hranked]
  rcases Ranking.take_insert_cases front index back k with ⟨hk, hsame⟩ | ⟨kept, gone, hgone, hold, hlater⟩
  · refine ⟨fun _ => hsame.symm, fun hin => ?_⟩
    rw [hsame] at hin
    exact absurd (List.mem_of_mem_take hin) hfresh
  · rw [hold, hlater]
    rw [hlater] at hnew
    have hmiss : index ∉ front ++ kept ++ gone := fun hin =>
      hfresh (List.mem_of_mem_take (hlater ▸ hin))
    refine ⟨fun hout => absurd (by simp) hout, fun _ => ⟨gone, hgone, ?_, ?_⟩⟩
    · intro other hother hin
      have hdisjoint := List.disjoint_of_nodup_append hnew
      rcases List.mem_append.mp hin with hfront | hback
      · exact hdisjoint (List.mem_append_left _ hfront) hother
      · rcases List.mem_cons.mp hback with rfl | hkept
        · exact hmiss (List.mem_append_right _ hother)
        · exact hdisjoint (List.mem_append_right _ hkept) hother
    · have hkeep : ∀ other ∈ front ++ kept, decide (other ≠ index) = true := fun other hother =>
        decide_eq_true fun heq => hmiss (List.mem_append_left _ (heq ▸ hother))
      rw [List.filter_append, List.filter_cons_of_neg (by simp), ← List.filter_append,
        List.filter_eq_self.mpr hkeep]

theorem withNode_take (hnodup : ranked.Nodup) (hmem : index ∈ ranked) (k : Nat) :
    WithNode ((ranked.filter (· ≠ index)).take k) index (ranked.take k) := by
  obtain ⟨front, back, hranked, -, hfilter⟩ := exists_split_of_mem hnodup hmem
  rw [hfilter, hranked]
  rcases Ranking.take_insert_cases front index back k with ⟨-, hsame⟩ | ⟨kept, gone, hgone, hnew, hold⟩
  · exact Or.inl hsame
  · exact Or.inr ⟨front, kept, gone, hgone, hold, hnew⟩

variable {nodeId : Bytes} {node : Node} {nodes : List Node}

theorem nodeAt_setHealthy (hfind : cluster.find nodeId = some index) (healthy : Bool)
    (other : Nat) :
    (cluster.setHealthy nodeId healthy).1.nodeAt other =
      if other = index then { cluster.nodeAt index with healthy := healthy } else cluster.nodeAt other := by
  obtain ⟨hlt, -, -⟩ := List.findIdx?_eq_some_iff_getElem.mp hfind
  simp only [setHealthy, hfind, nodeAt, List.getD_eq_getElem?_getD, List.getElem?_modify]
  by_cases hother : other = index
  · subst hother
    simp [List.getElem?_eq_getElem hlt]
  · simp [hother, Ne.symm hother]

theorem length_setHealthy (cluster : Cluster maxNodes) (nodeId : Bytes) (healthy : Bool) :
    (cluster.setHealthy nodeId healthy).1.nodes.length = cluster.nodes.length := by
  unfold setHealthy
  split
  · rfl
  · exact List.length_modify _ _ _

theorem score_setHealthy (hfind : cluster.find nodeId = some index) (healthy : Bool)
    (key : Bytes) (other : Nat) :
    (cluster.setHealthy nodeId healthy).1.score key other = cluster.score key other := by
  unfold score
  rw [nodeAt_setHealthy hfind]
  split
  · next heq => rw [heq]
  · rfl

theorem healthyIndexes_setUnhealthy (hfind : cluster.find nodeId = some index) :
    (cluster.setHealthy nodeId false).1.healthyIndexes =
      cluster.healthyIndexes.filter (· ≠ index) := by
  unfold healthyIndexes
  rw [length_setHealthy, List.filter_filter]
  refine List.filter_congr fun other _ => ?_
  rw [nodeAt_setHealthy hfind]
  by_cases hother : other = index <;> simp [hother]

/-- What a successful registration does. -/
theorem register_eq_ok (h : (cluster.register node).2 = .ok index) :
    index = cluster.nodes.length ∧ (cluster.register node).1.nodes = cluster.nodes ++ [node] ∧
      ∀ other ∈ cluster.nodes, other.id ≠ node.id := by
  unfold register at h ⊢
  split at h
  · cases h
  · next hfresh =>
      rw [if_neg hfresh]
      split at h
      · cases h
      · next hroom =>
          rw [dif_neg hroom]
          refine ⟨(Except.ok.inj h).symm, rfl, fun other hmem heq => hfresh ?_⟩
          rw [find, List.findIdx?_isSome, List.any_eq_true]
          exact ⟨other, hmem, decide_eq_true heq⟩

theorem nodeAt_of_concat (hnodes : other.nodes = cluster.nodes ++ [node])
    (hlt : index < cluster.nodes.length) : other.nodeAt index = cluster.nodeAt index := by
  rw [nodeAt, nodeAt, hnodes, List.getD_eq_getElem?_getD, List.getElem?_append_left hlt,
    ← List.getD_eq_getElem?_getD]

theorem healthyIndexes_of_concat (hnodes : other.nodes = cluster.nodes ++ [node])
    (hhealthy : node.healthy = true) :
    other.healthyIndexes = cluster.healthyIndexes ++ [cluster.nodes.length] := by
  have hlast : other.nodeAt cluster.nodes.length = node := by
    rw [nodeAt, hnodes, List.getD_eq_getElem?_getD, List.getElem?_concat_length, Option.getD_some]
  have hearlier : ∀ index ∈ List.range cluster.nodes.length,
      (other.nodeAt index).healthy = (cluster.nodeAt index).healthy := fun index hindex => by
    rw [nodeAt_of_concat hnodes (List.mem_range.mp hindex)]
  unfold healthyIndexes
  rw [hnodes, List.length_append, List.length_singleton, List.range_succ, List.filter_append,
    List.filter_congr hearlier, List.filter_cons_of_pos (by rw [hlast, hhealthy]), List.filter_nil]

theorem healthyIndexes_eq_filter_of_concat (hnodes : other.nodes = cluster.nodes ++ [node])
    (hhealthy : node.healthy = true) :
    cluster.healthyIndexes = other.healthyIndexes.filter (· ≠ cluster.nodes.length) := by
  have hkeep : ∀ index ∈ cluster.healthyIndexes, decide (index ≠ cluster.nodes.length) = true :=
    fun index hindex => decide_eq_true (mem_healthyIndexes.mp hindex).1.ne
  rw [healthyIndexes_of_concat hnodes hhealthy, List.filter_append,
    List.filter_cons_of_neg (by simp), List.filter_nil, List.append_nil, List.filter_eq_self.mpr hkeep]

theorem withoutNode_of_setUnhealthy
    (hfind : cluster.find nodeId = some index) (hhealthy : (cluster.nodeAt index).healthy = true)
    {old new : Placement} (hold : cluster.replicasFor key factor = .ok old)
    (hnew : (cluster.setHealthy nodeId false).1.replicasFor key factor = .ok new) :
    WithoutNode old index new := by
  obtain ⟨ranked, hranked⟩ := cluster.exists_ranks key
  obtain ⟨hlt, -, -⟩ := List.findIdx?_eq_some_iff_getElem.mp hfind
  have hmem : index ∈ ranked :=
    hranked.perm.symm.subset (mem_healthyIndexes.mpr ⟨hlt, hhealthy⟩)
  have hlater := hranked.of_filter (healthyIndexes_setUnhealthy hfind)
    fun other _ => score_setHealthy hfind false key other
  rw [eq_take_of_replicasFor hranked hold, eq_take_of_replicasFor hlater hnew]
  exact withoutNode_take hranked.nodup hmem factor

theorem withNode_of_register
    (hregister : (cluster.register node).2 = .ok index) (hhealthy : node.healthy = true)
    {old new : Placement} (hold : cluster.replicasFor key factor = .ok old)
    (hnew : (cluster.register node).1.replicasFor key factor = .ok new) :
    WithNode old index new := by
  obtain ⟨rfl, hnodes, -⟩ := register_eq_ok hregister
  obtain ⟨ranked, hranked⟩ := (cluster.register node).1.exists_ranks key
  have hmem : cluster.nodes.length ∈ ranked := by
    refine hranked.perm.symm.subset ?_
    rw [healthyIndexes_of_concat hnodes hhealthy]
    simp
  have hearlier := hranked.of_filter (healthyIndexes_eq_filter_of_concat hnodes hhealthy)
    fun other hother => by
      rw [score, score, nodeAt_of_concat hnodes (mem_healthyIndexes.mp hother).1]
  rw [eq_take_of_replicasFor hearlier hold, eq_take_of_replicasFor hranked hnew]
  exact withNode_take hranked.nodup hmem factor

/-- **Minimal movement.** A healthy node that fails takes only itself out of a placement, and at
most one node follows at the end; a healthy node that joins displaces at most the last one. -/
theorem placement_moves_minimally (cluster : Cluster maxNodes) (key : Bytes) (factor : Nat)
    (old : Placement) (hold : cluster.replicasFor key factor = .ok old) :
    (∀ nodeId index new, cluster.find nodeId = some index →
        (cluster.nodeAt index).healthy = true →
          (cluster.setHealthy nodeId false).1.replicasFor key factor = .ok new →
            WithoutNode old index new) ∧
      ∀ node index new, (cluster.register node).2 = .ok index → node.healthy = true →
        (cluster.register node).1.replicasFor key factor = .ok new → WithNode old index new :=
  ⟨fun _ _ _ hfind hhealthy hnew => withoutNode_of_setUnhealthy hfind hhealthy hold hnew,
    fun _ _ _ hregister hhealthy hnew => withNode_of_register hregister hhealthy hold hnew⟩

/-- The cluster of the source's test. -/
def threeNodes : Cluster 4 where
  nodes := [{ id := ascii "node-a" }, { id := ascii "node-b" }, { id := ascii "node-c" }]
  bounded := by decide

theorem placement_moves_threeNodes :
    threeNodes.replicasFor (ascii "customer:42") 2 = .ok [0, 1] ∧
      WithoutNode [0, 1] 0 [1, 2] ∧ WithNode [0, 1] 3 [3, 0] := by
  have hrun : threeNodes.replicasFor (ascii "customer:42") 2 = .ok [0, 1] ∧
      (threeNodes.setHealthy (ascii "node-a") false).1.replicasFor (ascii "customer:42") 2 =
        .ok [1, 2] ∧
      (threeNodes.register { id := ascii "node-d" }).1.replicasFor (ascii "customer:42") 2 =
        .ok [3, 0] := by decide +kernel
  obtain ⟨hold, hfailed, hjoined⟩ := hrun
  have hmoves := placement_moves_minimally threeNodes (ascii "customer:42") 2 [0, 1] hold
  exact ⟨hold, hmoves.1 (ascii "node-a") 0 [1, 2] (by decide) rfl hfailed,
    hmoves.2 { id := ascii "node-d" } 3 [3, 0] (by decide) rfl hjoined⟩

/-! ## Agreement without a leader -/

/-- The order of nodes by their score for a key. -/
def Outscores (key : Bytes) (first second : Node) : Prop :=
  placementScore key second.id < placementScore key first.id

instance (key : Bytes) : DecidableRel (Outscores key) := fun first second =>
  inferInstanceAs (Decidable (placementScore key second.id < placementScore key first.id))

/-- The healthy nodes. -/
def healthyNodes (nodes : List Node) : List Node :=
  nodes.filter Node.healthy

/-- No two healthy nodes have the same score. -/
def DistinctScores (key : Bytes) (nodes : List Node) : Prop :=
  ((healthyNodes nodes).map fun node => placementScore key node.id).Nodup

/-- What a placement is for, whoever computes it. -/
structure TopReplicas (nodes : List Node) (key : Bytes) (factor : Nat) (selected : List Node) :
    Prop where
  length_eq : selected.length = min factor (healthyNodes nodes).length
  distinct : (selected.map Node.id).Nodup
  healthy : ∀ node ∈ selected, node ∈ nodes ∧ node.healthy = true
  descending : selected.Pairwise (Outscores key)
  highest : ∀ node ∈ nodes, node.healthy = true → node ∉ selected →
    ∀ replica ∈ selected, Outscores key replica node

theorem map_nodeAt_range (cluster : Cluster maxNodes) :
    (List.range cluster.nodes.length).map cluster.nodeAt = cluster.nodes := by
  refine List.ext_getElem (by simp) fun index _ hindex => ?_
  simp [nodeAt, List.getElem?_eq_getElem hindex]

theorem map_nodeAt_healthyIndexes (cluster : Cluster maxNodes) :
    cluster.healthyIndexes.map cluster.nodeAt = healthyNodes cluster.nodes := by
  conv_rhs => rw [healthyNodes, ← cluster.map_nodeAt_range, List.filter_map]
  rfl

/-- With distinct scores, the ranking of the positions is the ranking of the nodes. -/
theorem ranked_nodesAt (h : cluster.Ranks key ranked)
    (hdistinct : DistinctScores key cluster.nodes) :
    Ranking.Ranked (Outscores key) (healthyNodes cluster.nodes) (cluster.nodesAt ranked) := by
  rw [← map_nodeAt_healthyIndexes]
  refine h.map cluster.nodeAt fun first hfirst second hsecond hprecedes => ?_
  rcases hprecedes with hlt | ⟨heq, hlt⟩
  · exact UInt64.lt_iff_toNat_lt.mpr hlt
  · -- equal scores would be those of two positions
    rw [DistinctScores, ← map_nodeAt_healthyIndexes, List.map_map] at hdistinct
    exact absurd (List.inj_on_of_nodup_map hdistinct hfirst hsecond (UInt64.toNat_inj.mp heq)) hlt.ne

/-- A prefix of the ranking of distinct nodes has what placements are for. -/
theorem topReplicas_take {ranked : List Node} (hids : (nodes.map Node.id).Nodup)
    (h : Ranking.Ranked (Outscores key) (healthyNodes nodes) ranked) (factor : Nat) :
    TopReplicas nodes key factor (ranked.take factor) where
  length_eq := by rw [List.length_take, h.perm.length_eq]
  distinct := by
    have hhealthy : ((healthyNodes nodes).map Node.id).Nodup :=
      hids.sublist (List.filter_sublist.map Node.id)
    have hranked : (ranked.map Node.id).Nodup := (h.perm.map Node.id).nodup_iff.mpr hhealthy
    rw [List.map_take]
    exact hranked.take
  healthy := by
    intro node hmem
    have hin := h.perm.subset (List.mem_of_mem_take hmem)
    exact List.mem_filter.mp hin
  descending := h.sorted.take
  highest := by
    intro node hmem hhealthy hout replica hreplica
    have hin : node ∈ ranked := h.perm.symm.subset (List.mem_filter.mpr ⟨hmem, hhealthy⟩)
    have hsorted := h.sorted
    rw [← List.take_append_drop factor ranked] at hin hsorted
    have hdrop := (List.mem_append.mp hin).resolve_left hout
    exact (List.pairwise_append.mp hsorted).2.2 replica hreplica node hdrop

theorem nodes_of_foldlM_register {start built : Cluster maxNodes}
    (h : nodes.foldlM (fun cluster node =>
      (cluster.register node).2.map fun _ => (cluster.register node).1) start = .ok built)
    (hids : (start.nodes.map Node.id).Nodup) :
    built.nodes = start.nodes ++ nodes ∧ (built.nodes.map Node.id).Nodup := by
  induction nodes generalizing start with
  | nil =>
      cases h
      exact ⟨(List.append_nil _).symm, hids⟩
  | cons node rest ih =>
      rw [List.foldlM_cons] at h
      cases hregister : (start.register node).2 with
      | error err =>
          rw [hregister] at h
          cases h
      | ok index =>
          rw [hregister] at h
          obtain ⟨-, hnodes, hfresh⟩ := register_eq_ok hregister
          have hnext : ((start.register node).1.nodes.map Node.id).Nodup := by
            rw [hnodes]
            exact Keyed.nodup_concat hids hfresh
          obtain ⟨hbuilt, hdistinct⟩ := ih h hnext
          refine ⟨?_, hdistinct⟩
          rw [hbuilt, hnodes, List.append_assoc, List.singleton_append]

theorem nodes_of_build (h : build maxNodes nodes = .ok cluster) :
    cluster.nodes = nodes ∧ (nodes.map Node.id).Nodup := by
  obtain ⟨hnodes, hids⟩ := nodes_of_foldlM_register h List.nodup_nil
  have heq : cluster.nodes = nodes := hnodes.trans (List.nil_append nodes)
  exact ⟨heq, heq ▸ hids⟩

/-- The ids that `replicasFor` selects. -/
def replicaIds (cluster : Cluster maxNodes) (key : Bytes) (factor : Nat) :
    Except ClusterError (List Bytes) :=
  (cluster.replicasFor key factor).map fun placement => (cluster.nodesAt placement).map Node.id

/-- **Specification of `replicasFor`, without positions.** -/
theorem replicaIds_eq {ranked : List Node}
    (hdistinct : DistinctScores key cluster.nodes)
    (h : Ranking.Ranked (Outscores key) (healthyNodes cluster.nodes) ranked) (factor : Nat) :
    cluster.replicaIds key factor =
      if factor = 0 ∨ factor > maxNodes then .error .invalidReplicationFactor
      else if ranked = [] then .error .noHealthyNodes
      else .ok ((ranked.take factor).map Node.id) := by
  obtain ⟨positions, hpositions⟩ := cluster.exists_ranks key
  have hsame : cluster.nodesAt positions = ranked :=
    (ranked_nodesAt hpositions hdistinct).unique (fun _ _ => UInt64.lt_asymm) h (List.Perm.refl _)
  have hempty : positions = [] ↔ ranked = [] := by rw [← hsame, nodesAt, List.map_eq_nil_iff]
  unfold replicaIds
  rw [replicasFor_eq hpositions]
  simp only [hempty]
  split
  · rfl
  · split
    · rfl
    · show Except.ok (((positions.take factor).map cluster.nodeAt).map Node.id) = _
      rw [List.map_take, show positions.map cluster.nodeAt = ranked from hsame]

theorem DistinctScores.of_perm {others : List Node} (hperm : nodes.Perm others)
    (h : DistinctScores key nodes) : DistinctScores key others :=
  ((hperm.filter Node.healthy).map _).nodup_iff.mp h

theorem replicasFor_eq_error_iff (cluster : Cluster maxNodes) (key : Bytes) (factor : Nat) :
    (∃ err, cluster.replicasFor key factor = .error err) ↔
      (∀ node ∈ cluster.nodes, node.healthy = false) ∨ factor = 0 ∨ factor > maxNodes := by
  obtain ⟨ranked, hranked⟩ := cluster.exists_ranks key
  have hempty : ranked = [] ↔ ∀ node ∈ cluster.nodes, node.healthy = false := by
    have hnil : ranked = [] ↔ healthyNodes cluster.nodes = [] := by
      rw [← map_nodeAt_healthyIndexes, List.map_eq_nil_iff]
      exact not_iff_not.mp hranked.ne_nil_iff
    rw [hnil, healthyNodes, List.filter_eq_nil_iff]
    simp
  rw [replicasFor_eq hranked, ← hempty]
  by_cases hrange : factor = 0 ∨ factor > maxNodes
  · simp [hrange]
  · by_cases hnone : ranked = [] <;> simp [hrange, hnone]

/-- **Leaderless agreement.** Clusters with the same nodes, registered in any two orders, select
the same ids in the same order when no two healthy nodes have the same score for the key: those
with the highest scores. -/
theorem placement_agreement (nodes others : List Node) (first second : Cluster maxNodes)
    (key : Bytes) (factor : Nat) (hperm : nodes.Perm others)
    (hfirst : build maxNodes nodes = .ok first) (hsecond : build maxNodes others = .ok second)
    (hdistinct : DistinctScores key nodes) :
    first.replicaIds key factor = second.replicaIds key factor ∧
      (∀ placement, first.replicasFor key factor = .ok placement →
        TopReplicas nodes key factor (first.nodesAt placement)) ∧
      ((∃ err, first.replicasFor key factor = .error err) ↔
        (∀ node ∈ nodes, node.healthy = false) ∨ factor = 0 ∨ factor > maxNodes) := by
  obtain ⟨rfl, hids⟩ := nodes_of_build hfirst
  obtain ⟨rfl, -⟩ := nodes_of_build hsecond
  obtain ⟨positions, hpositions⟩ := first.exists_ranks key
  have hranked := ranked_nodesAt hpositions hdistinct
  have hother : Ranking.Ranked (Outscores key) (healthyNodes second.nodes) (first.nodesAt positions) :=
    ⟨hranked.perm.trans (hperm.filter Node.healthy), hranked.sorted⟩
  refine ⟨?_, ?_, replicasFor_eq_error_iff first key factor⟩
  · rw [replicaIds_eq hdistinct hranked, replicaIds_eq (hdistinct.of_perm hperm) hother]
  · intro placement hplacement
    rw [eq_take_of_replicasFor hpositions hplacement, nodesAt, List.map_take]
    exact topReplicas_take hids hranked factor

/-- The same nodes in another order of registration. -/
def threeNodesReordered : Cluster 4 where
  nodes := [{ id := ascii "node-c" }, { id := ascii "node-a" }, { id := ascii "node-b" }]
  bounded := by decide

theorem placement_agreement_threeNodes :
    threeNodesReordered.replicasFor (ascii "customer:42") 2 = .ok [1, 2] ∧
      threeNodes.replicaIds (ascii "customer:42") 2 =
        threeNodesReordered.replicaIds (ascii "customer:42") 2 := by
  have hbuilt : build 4 threeNodes.nodes = .ok threeNodes ∧
      build 4 threeNodesReordered.nodes = .ok threeNodesReordered ∧
      threeNodes.nodes.Perm threeNodesReordered.nodes ∧
      DistinctScores (ascii "customer:42") threeNodes.nodes ∧
      threeNodesReordered.replicasFor (ascii "customer:42") 2 = .ok [1, 2] := by
    unfold DistinctScores
    decide +kernel
  obtain ⟨hfirst, hsecond, hperm, hdistinct, hplacement⟩ := hbuilt
  exact ⟨hplacement,
    (placement_agreement _ _ _ _ (ascii "customer:42") 2 hperm hfirst hsecond hdistinct).1⟩

end Cluster

end Ubiq.Rendezvous
