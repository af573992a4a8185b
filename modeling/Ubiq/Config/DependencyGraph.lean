import Ubiq.Config.Features
import Ubiq.Foundation.DepthFirst

/-!
# Cycles among the dependencies

`detectCycles` of `dependency_graph.zig` is a depth-first search in three colours over the required
edges, which it finds in the unordered list of all edges. `visit_spec` says what one visit does:
it finishes its node and leaves the path as it was, or there is a cycle. The fuel of the model is
never used up, since the nodes on the path are different features.

`validateGraph_exact` is what `validate` decides.
-/

namespace Ubiq.Config

open Foundation
open Foundation.DepthFirst

/-- The first feature requires the second. -/
def Requires (edges : List Edge) (source target : Feature) : Prop :=
  ∃ edge ∈ edges, edge.relation = .required ∧ edge.source = source ∧ edge.target = target

theorem Feature.mem_all (feature : Feature) : feature ∈ Feature.all := by
  cases feature <;> decide

/-- The features that are finished. -/
def finished (colors : Feature → Color) : Set Feature :=
  { node | colors node = .done }

/-- The colours of a search that is visiting the features of the path. -/
structure Searching (edges : List Edge) (path : List Feature) (colors : Feature → Color) : Prop where
  explored : Explored (Requires edges) path (finished colors)
  onPath : ∀ node, colors node = .onPath ↔ node ∈ path

/-- What a part of the search may return: the colours with more features finished, the wanted ones
among them; or a cycle, if there is one. -/
def Finds (edges : List Edge) (path : List Feature) (colors : Feature → Color)
    (wanted : Feature → Prop) (result : ExceptT GraphError Option (Feature → Color)) : Prop :=
  (result = throw .dependencyCycle ∧ Cyclic (Requires edges)) ∨
    ∃ painted, result = pure painted ∧ Searching edges path painted ∧
      (∀ node, colors node = .done → painted node = .done) ∧
      ∀ node, wanted node → painted node = .done

section Search

variable {edges : List Edge} {path : List Feature} {colors : Feature → Color}
  {result : ExceptT GraphError Option (Feature → Color)} {node : Feature}

theorem Finds.pure {wanted : Feature → Prop} (h : Searching edges path colors)
    (hwanted : ∀ node, wanted node → colors node = .done) :
    Finds edges path colors wanted (pure colors) :=
  Or.inr ⟨colors, rfl, h, fun _ hdone => hdone, hwanted⟩

theorem Finds.mono {wanted fewer : Feature → Prop} (h : Finds edges path colors wanted result)
    (hfewer : ∀ node, fewer node → wanted node) : Finds edges path colors fewer result :=
  h.imp_right fun ⟨painted, hresult, hsearching, hkept, hfinished⟩ =>
    ⟨painted, hresult, hsearching, hkept, fun node hnode => hfinished node (hfewer node hnode)⟩

/-- **Sequence rule.** What the first part has finished stays finished. -/
theorem Finds.bind {first second both : Feature → Prop}
    {next : (Feature → Color) → ExceptT GraphError Option (Feature → Color)}
    (hfirst : Finds edges path colors first result)
    (hnext : ∀ painted, Searching edges path painted → Finds edges path painted second (next painted))
    (hboth : ∀ node, both node → first node ∨ second node) :
    Finds edges path colors both (result >>= next) := by
  rcases hfirst with ⟨rfl, hcycle⟩ | ⟨painted, rfl, hpainted, hkept, hfinished⟩
  · exact Or.inl ⟨rfl, hcycle⟩
  · rw [pure_bind]
    rcases hnext painted hpainted with ⟨herror, hcycle⟩ | ⟨after, hafter, hsearching, hkept', hlater⟩
    · exact Or.inl ⟨herror, hcycle⟩
    · refine Or.inr ⟨after, hafter, hsearching, fun node h => hkept' node (hkept node h), ?_⟩
      intro node hnode
      rcases hboth node hnode with hearly | hlate
      · exact hkept' node (hfinished node hearly)
      · exact hlater node hlate

/-- **Loop rule.** -/
theorem Finds.foldlM {ι : Type} {step : (Feature → Color) → ι → ExceptT GraphError Option (Feature → Color)}
    {wanted : ι → Feature → Prop} {items : List ι}
    (hstep : ∀ item ∈ items, ∀ colors, Searching edges path colors →
      Finds edges path colors (wanted item) (step colors item))
    (h : Searching edges path colors) :
    Finds edges path colors (fun node => ∃ item ∈ items, wanted item node)
      (items.foldlM step colors) := by
  induction items generalizing colors with
  | nil => exact Finds.pure h fun _ ⟨_, hmem, _⟩ => absurd hmem List.not_mem_nil
  | cons item items ih =>
      obtain ⟨hfirst, hrest⟩ := List.forall_mem_cons.mp hstep
      rw [List.foldlM_cons]
      refine (hfirst colors h).bind (fun painted hpainted => ih hrest hpainted) ?_
      rintro node ⟨other, hother, hwanted⟩
      rcases List.mem_cons.mp hother with rfl | hmem
      · exact Or.inl hwanted
      · exact Or.inr ⟨other, hmem, hwanted⟩

/-- The features on the path are different, so they are at most all features. -/
theorem Searching.length_le (h : Searching edges path colors) : path.length ≤ Feature.all.length :=
  (h.explored.nodup.subperm fun node _ => node.mem_all).length_le

/-- The search paints a feature that it enters. -/
theorem Searching.enter (h : Searching edges path colors) (hcolor : colors node = .unvisited) :
    Searching edges (node :: path) (Function.update colors node .onPath) := by
  have hpath : node ∉ path := by
    rw [← h.onPath, hcolor]
    decide
  have hsame : finished (Function.update colors node .onPath) = finished colors := by
    ext other
    by_cases hother : other = node
    · subst hother
      simp [finished, hcolor]
    · simp [finished, Function.update_of_ne hother]
  have hdone : node ∉ finished colors := by simp [finished, hcolor]
  refine ⟨hsame ▸ h.explored.enter hpath hdone, fun other => ?_⟩
  by_cases hother : other = node
  · subst hother
    simp
  · simp [hother, h.onPath]

/-- The search paints a feature that it leaves. -/
theorem Searching.leave (h : Searching edges (node :: path) colors)
    (hnext : ∀ next, Requires edges node next → colors next = .done) :
    Searching edges path (Function.update colors node .done) := by
  have hmore : finished (Function.update colors node .done) = insert node (finished colors) := by
    ext other
    by_cases hother : other = node
    · subst hother
      simp [finished]
    · simp [finished, hother]
  refine ⟨hmore ▸ h.explored.leave hnext, fun other => ?_⟩
  by_cases hother : other = node
  · subst hother
    simp [(List.nodup_cons.mp h.explored.nodup).1]
  · simp [h.onPath, hother]

/-- One edge of the loop: those of other features are passed over, those of `node` are followed. -/
theorem follow_spec {edge : Edge} {fuel : Nat} (hedge : edge ∈ edges)
    (h : Searching edges (node :: path) colors) (hvisit : Requires edges node edge.target →
      Finds edges (node :: path) colors (fun other => other = edge.target)
        (visit edges fuel edge.target colors)) :
    Finds edges (node :: path) colors
      (fun target => edge.relation = .required ∧ edge.source = node ∧ edge.target = target)
      (if edge.relation ≠ .required ∨ edge.source ≠ node then pure colors
        else visit edges fuel edge.target colors) := by
  split
  · next hother =>
      refine Finds.pure h fun target ⟨hrelation, hsource, _⟩ => ?_
      exact absurd hother (not_or.mpr ⟨not_not.mpr hrelation, not_not.mpr hsource⟩)
  · next hfollowed =>
      obtain ⟨hrelation, hsource⟩ := not_or.mp hfollowed
      have hrequires : Requires edges node edge.target :=
        ⟨edge, hedge, not_not.mp hrelation, not_not.mp hsource, rfl⟩
      exact (hvisit hrequires).mono fun target htarget => htarget.2.2.symm

/-- A search below `node` that has finished all its targets finishes `node`. -/
theorem finds_leave
    (h : Finds edges (node :: path) (Function.update colors node .onPath) (Requires edges node)
      result) :
    Finds edges path colors (fun other => other = node)
      (result >>= fun painted => pure (Function.update painted node .done)) := by
  rcases h with ⟨rfl, hcycle⟩ | ⟨painted, rfl, hsearching, hkept, hnext⟩
  · exact Or.inl ⟨rfl, hcycle⟩
  · refine Or.inr ⟨Function.update painted node .done, rfl, hsearching.leave hnext, ?_, ?_⟩
    · intro other hother
      by_cases hsame : other = node
      · simp [hsame]
      · have hbefore := hkept other (by rw [Function.update_of_ne hsame, hother])
        rw [Function.update_of_ne hsame, hbefore]
    · rintro other rfl
      exact Function.update_self ..

/-- **What a visit does**: it finishes its feature, or there is a cycle. -/
theorem visit_spec {fuel : Nat} (hfuel : Feature.all.length < fuel + path.length)
    (h : Searching edges path colors) (hleads : Leads (Requires edges) path node) :
    Finds edges path colors (fun other => other = node) (visit edges fuel node colors) := by
  induction fuel generalizing node path colors with
  | zero =>
      have := h.length_le
      omega
  | succ fuel ih =>
      rw [visit]
      cases hcolor : colors node with
      | onPath => exact Or.inl ⟨rfl, hleads.cyclic_of_mem ((h.onPath node).mp hcolor)⟩
      | done => exact Finds.pure h fun _ heq => heq ▸ hcolor
      | unvisited =>
          have hroom : Feature.all.length < fuel + (node :: path).length := by
            rw [List.length_cons]
            omega
          refine finds_leave (Finds.foldlM (fun edge hedge painted hpainted => ?_) (h.enter hcolor))
          exact follow_spec hedge hpainted fun hrequires =>
            ih hroom hpainted (hleads.cons hrequires)

end Search

/-! ## The whole search -/

/-- The loop of `detectCycles` with the given fuel for each visit. -/
def paintAll (edges : List Edge) (fuel : Nat) : ExceptT GraphError Option (Feature → Color) :=
  Feature.all.foldlM
    (fun colors node => if colors node = .unvisited then visit edges fuel node colors else pure colors)
    (fun _ => Color.unvisited)

theorem searching_unvisited (edges : List Edge) : Searching edges [] fun _ => .unvisited := by
  have hnone : finished (fun _ => Color.unvisited) = ∅ := by simp [finished]
  refine ⟨hnone ▸ explored_nil _, fun node => ?_⟩
  simp

variable {edges : List Edge} {fuel : Nat}

/-- **The search ends**, with a cycle if there is one and without an error if there is none. -/
theorem paintAll_cases (hfuel : Feature.all.length < fuel) :
    (paintAll edges fuel = throw .dependencyCycle ∧ Cyclic (Requires edges)) ∨
      ∃ painted, paintAll edges fuel = pure painted ∧ ¬Cyclic (Requires edges) := by
  have hstep : ∀ node ∈ Feature.all, ∀ colors, Searching edges [] colors →
      Finds edges [] colors (fun other => other = node)
        (if colors node = .unvisited then visit edges fuel node colors else pure colors) := by
    intro node _ colors hcolors
    split
    · exact visit_spec hfuel hcolors (leads_nil _ node)
    · next hvisited =>
        -- no feature is on the path between two visits
        refine Finds.pure hcolors fun other hother => ?_
        subst hother
        cases hcolor : colors other with
        | unvisited => exact absurd hcolor hvisited
        | onPath => exact absurd ((hcolors.onPath other).mp hcolor) List.not_mem_nil
        | done => rfl
  rcases Finds.foldlM hstep (searching_unvisited edges) with hcycle | ⟨painted, hpainted, hsearching, -, hall⟩
  · exact Or.inl hcycle
  · refine Or.inr ⟨painted, hpainted, hsearching.explored.not_cyclic fun node => ?_⟩
    exact hall node ⟨node, node.mem_all, rfl⟩

theorem detectCycles_cases (edges : List Edge) :
    (detectCycles edges = .error .dependencyCycle ∧ Cyclic (Requires edges)) ∨
      detectCycles edges = .ok () ∧ ¬Cyclic (Requires edges) := by
  rcases paintAll_cases (Nat.lt_succ_self Feature.all.length) with ⟨hrun, hcycle⟩ | ⟨painted, hrun, hnone⟩
  · refine Or.inl ⟨?_, hcycle⟩
    unfold paintAll at hrun
    simp only [detectCycles, hrun]
    rfl
  · refine Or.inr ⟨?_, hnone⟩
    unfold paintAll at hrun
    simp only [detectCycles, hrun]
    rfl

/-- The fuel of the model is enough: with more of it the search returns the same. -/
theorem run_paintAll (hfuel : Feature.all.length < fuel) :
    (paintAll edges fuel).run.map (Except.map fun _ => ()) = some (detectCycles edges) := by
  rcases paintAll_cases hfuel with ⟨hrun, hcycle⟩ | ⟨painted, hrun, hnone⟩ <;>
    rcases detectCycles_cases edges with ⟨hdetect, hsame⟩ | ⟨hdetect, hsame⟩
  · rw [hrun, hdetect]
    rfl
  · exact absurd hcycle hsame
  · exact absurd hsame hnone
  · rw [hrun, hdetect]
    rfl

/-- What the edge loop accepts. -/
theorem checkEdges_eq_ok_iff {config : FeatureConfig} :
    checkEdges config edges = .ok () ↔
      (∀ edge ∈ edges, edge.relation = .required → config.isEnabled edge.source = true →
          config.isEnabled edge.target = true) ∧
        ∀ edge ∈ edges, edge.relation = .conflicts →
          ¬(config.isEnabled edge.source = true ∧ config.isEnabled edge.target = true) := by
  induction edges with
  | nil => simp [checkEdges]
  | cons edge edges ih =>
      rw [List.forall_mem_cons, List.forall_mem_cons, checkEdges]
      cases hrelation : edge.relation with
      | optional => simp [ih]
      | required =>
          dsimp only
          split
          · next hmissing => simp_all
          · next hmet => simp_all
      | conflicts =>
          dsimp only
          split
          · next hboth => simp_all
          · next hnotBoth => simp_all

/-- **Cycle detection is exact.** The search ends with any fuel beyond the number of features; it
reports a cycle exactly if the required edges have one; and `validate` succeeds exactly if they have
none, every enabled feature has what it requires, and no conflicting features are both enabled. -/
theorem validateGraph_exact (edges : List Edge) (config : FeatureConfig) :
    (∀ fuel, Feature.all.length < fuel →
        (paintAll edges fuel).run.map (Except.map fun _ => ()) = some (detectCycles edges)) ∧
      (detectCycles edges = .error .dependencyCycle ↔ ∃ node, Relation.TransGen (Requires edges) node node) ∧
      (detectCycles edges = .ok () ↔ ¬∃ node, Relation.TransGen (Requires edges) node node) ∧
      (validateGraph config edges = .ok () ↔
        (¬∃ node, Relation.TransGen (Requires edges) node node) ∧
          (∀ edge ∈ edges, edge.relation = .required → config.isEnabled edge.source = true →
            config.isEnabled edge.target = true) ∧
          ∀ edge ∈ edges, edge.relation = .conflicts →
            ¬(config.isEnabled edge.source = true ∧ config.isEnabled edge.target = true)) := by
  have hdetect : (detectCycles edges = .error .dependencyCycle ↔ Cyclic (Requires edges)) ∧
      (detectCycles edges = .ok () ↔ ¬Cyclic (Requires edges)) := by
    rcases detectCycles_cases edges with ⟨hresult, hcycle⟩ | ⟨hresult, hnone⟩
    · simp [hresult, hcycle]
    · simp [hresult, hnone]
  refine ⟨fun fuel hfuel => run_paintAll hfuel, hdetect.1, hdetect.2, ?_⟩
  rw [← checkEdges_eq_ok_iff, validateGraph]
  cases hcheck : checkEdges config edges with
  | error err => simp
  | ok checked => simpa [Cyclic] using hdetect.2

end Ubiq.Config
