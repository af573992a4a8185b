import Mathlib.Logic.Relation
import Mathlib.Data.Set.Insert
import Mathlib.Data.List.Nodup

/-!
# Depth-first search for cycles

A search keeps the nodes that it is visiting (`path`, the innermost first) and those that it has
finished (`done`). `Explored` is what holds between two of its steps: a finished node has only
finished successors and lies on no cycle.

* `Explored.enter` and `Explored.leave` are the two steps.
* `Explored.cyclic_of_mem` is a cycle that was found.
* `Explored.not_cyclic` is the end of a search that found none.
-/

namespace Ubiq.Foundation.DepthFirst

open Relation (TransGen ReflTransGen)

variable {α : Type*} {edge : α → α → Prop} {path : List α} {done : Set α} {node next : α}

/-- Some node reaches itself. -/
def Cyclic (edge : α → α → Prop) : Prop :=
  ∃ node, TransGen edge node node

/-- Every node that is being visited reaches the given one. -/
def Leads (edge : α → α → Prop) (path : List α) (node : α) : Prop :=
  ∀ outer ∈ path, TransGen edge outer node

/-- What a search knows between two steps. -/
structure Explored (edge : α → α → Prop) (path : List α) (done : Set α) : Prop where
  nodup : path.Nodup
  disjoint : ∀ node ∈ path, node ∉ done
  closed : ∀ node ∈ done, ∀ next, edge node next → next ∈ done
  acyclic : ∀ node ∈ done, ¬TransGen edge node node

theorem explored_nil (edge : α → α → Prop) : Explored edge [] ∅ where
  nodup := List.nodup_nil
  disjoint := List.forall_mem_nil _
  closed _ hnode := absurd hnode (Set.notMem_empty _)
  acyclic _ hnode := absurd hnode (Set.notMem_empty _)

theorem leads_nil (edge : α → α → Prop) (node : α) : Leads edge [] node :=
  List.forall_mem_nil _

/-- A node that is being visited is a way back to itself. -/
theorem Leads.cyclic_of_mem (h : Leads edge path node) (hmem : node ∈ path) : Cyclic edge :=
  ⟨node, h node hmem⟩

/-- The way to a node goes on to its successors. -/
theorem Leads.cons (h : Leads edge path node) (hedge : edge node next) :
    Leads edge (node :: path) next := by
  intro outer houter
  rcases List.mem_cons.mp houter with rfl | hmem
  · exact TransGen.single hedge
  · exact (h outer hmem).tail hedge

/-- What is reachable from a finished node is finished. -/
theorem Explored.mem_of_reaches (h : Explored edge path done) (hnode : node ∈ done)
    (hreaches : ReflTransGen edge node next) : next ∈ done := by
  induction hreaches with
  | refl => exact hnode
  | tail _ hedge ih => exact h.closed _ ih _ hedge

/-- The search enters a node. -/
theorem Explored.enter (h : Explored edge path done) (hpath : node ∉ path) (hdone : node ∉ done) :
    Explored edge (node :: path) done where
  nodup := List.nodup_cons.mpr ⟨hpath, h.nodup⟩
  disjoint := List.forall_mem_cons.mpr ⟨hdone, h.disjoint⟩
  closed := h.closed
  acyclic := h.acyclic

/-- The search leaves a node whose successors are finished. -/
theorem Explored.leave (h : Explored edge (node :: path) done)
    (hnext : ∀ next, edge node next → next ∈ done) : Explored edge path (insert node done) := by
  obtain ⟨hnode, hpath⟩ := List.forall_mem_cons.mp h.disjoint
  obtain ⟨hfresh, hnodup⟩ := List.nodup_cons.mp h.nodup
  refine ⟨hnodup, ?_, ?_, ?_⟩
  · rintro outer houter (rfl | hdone)
    · exact hfresh houter
    · exact hpath outer houter hdone
  · rintro other (rfl | hother) next hedge
    · exact Set.mem_insert_of_mem _ (hnext next hedge)
    · exact Set.mem_insert_of_mem _ (h.closed other hother next hedge)
  · rintro other (rfl | hother) hcycle
    · -- a cycle through the node would come back through finished nodes only
      obtain ⟨next, hedge, hback⟩ := TransGen.head'_iff.mp hcycle
      exact hnode (h.mem_of_reaches (hnext next hedge) hback)
    · exact h.acyclic other hother hcycle

/-- A search that has finished every node has found that there is no cycle. -/
theorem Explored.not_cyclic (h : Explored edge path done) (hall : ∀ node, node ∈ done) :
    ¬Cyclic edge := by
  rintro ⟨node, hcycle⟩
  exact h.acyclic node (hall node) hcycle

end Ubiq.Foundation.DepthFirst
