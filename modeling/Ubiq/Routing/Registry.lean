import Ubiq.Foundation.Fallible
import Ubiq.Foundation.SortedTable
import Ubiq.Routing.Capability

/-!
# Routes of the Go runtime

`transport.go`: the registry of transports, and `ValidateRoute`, which looks up the named stages
of a route and then checks two of the eight required flags. `Capabilities.Satisfies` checks all of
them, for a single transport.

`routes_honoured_iff` compares both runtimes with what a route declares: an accepted route offers
each required flag in some stage, except for the flags that the check does not look at.
-/

namespace Ubiq.Routes

open Foundation

structure Capabilities where
  reliable : Bool := false
  ordered : Bool := false
  durable : Bool := false
  replay : Bool := false
  bidirectional : Bool := false
  consumerGroups : Bool := false
  streaming : Bool := false
  executionSettlement : Bool := false
deriving DecidableEq, Repr

structure Requirement where
  reliable : Bool := false
  ordered : Bool := false
  durable : Bool := false
  replay : Bool := false
  bidirectional : Bool := false
  consumerGroups : Bool := false
  streaming : Bool := false
  executionSettlement : Bool := false
deriving DecidableEq, Repr

/-- The fields that the two structures share. -/
inductive Flag
  | reliable
  | ordered
  | durable
  | replay
  | bidirectional
  | consumerGroups
  | streaming
  | executionSettlement
deriving DecidableEq, Repr

/-- The field of a flag. -/
def Capabilities.offers (capabilities : Capabilities) : Flag → Bool
  | .reliable => capabilities.reliable
  | .ordered => capabilities.ordered
  | .durable => capabilities.durable
  | .replay => capabilities.replay
  | .bidirectional => capabilities.bidirectional
  | .consumerGroups => capabilities.consumerGroups
  | .streaming => capabilities.streaming
  | .executionSettlement => capabilities.executionSettlement

/-- The field of a flag. -/
def Requirement.demands (required : Requirement) : Flag → Bool
  | .reliable => required.reliable
  | .ordered => required.ordered
  | .durable => required.durable
  | .replay => required.replay
  | .bidirectional => required.bidirectional
  | .consumerGroups => required.consumerGroups
  | .streaming => required.streaming
  | .executionSettlement => required.executionSettlement

/-- `if required && !offered { return errors.New(message) }`. -/
def requireFlag (required offered : Bool) (message : String) : Except Bytes Unit :=
  if required && !offered then .error (ascii message) else .ok ()

def Capabilities.satisfies (c : Capabilities) (r : Requirement) : Except Bytes Unit := do
  requireFlag r.reliable c.reliable "reliable delivery required"
  requireFlag r.ordered c.ordered "ordering required"
  requireFlag r.durable c.durable "durability required"
  requireFlag r.replay c.replay "replay required"
  requireFlag r.bidirectional c.bidirectional "bidirectional transport required"
  requireFlag r.consumerGroups c.consumerGroups "consumer groups required"
  requireFlag r.streaming c.streaming "streaming required"
  requireFlag r.executionSettlement c.executionSettlement "execution settlement required"

/-- `Transport`, with the answers of `Name` and `Capabilities`. -/
structure Transport where
  name : Bytes
  capabilities : Capabilities
deriving DecidableEq, Repr

/-- The errors of the registry. -/
inductive RegistryError
  | nameRequired
  | alreadyRegistered (name : Bytes)
  | unknownTransport (name : Bytes)
  | noDurableStage
  | noSettlementStage
deriving DecidableEq, Repr

/-- The text of an error; `quoted` is what `%q` prints. -/
def RegistryError.message (quoted : Bytes → Bytes) : RegistryError → Bytes
  | .nameRequired => ascii "transport with name required"
  | .alreadyRegistered name => ascii "transport " ++ quoted name ++ ascii " already registered"
  | .unknownTransport name => ascii "unknown transport " ++ quoted name
  | .noDurableStage => ascii "route has no durable stage"
  | .noSettlementStage => ascii "route has no execution-settlement stage"

/-- `Registry`: transports under their names, none of which is empty. -/
structure Registry where
  transports : SortedTable Bytes Transport
  named : ∀ name transport, transports.lookup name = some transport →
    transport.name = name ∧ name ≠ []

structure Route where
  ingress : Bytes := []
  backbone : Bytes := []
  egress : Bytes := []
  requires : Requirement := {}
deriving DecidableEq, Repr

/-- The names that `ValidateRoute` goes through. -/
def Route.names (route : Route) : List Bytes :=
  [route.ingress, route.backbone, route.egress]

namespace Registry

/-- `NewRegistry`. -/
def new : Registry where
  transports := .empty
  named := by
    intro name transport h
    cases h

theorem named_put (registry : Registry) {added : Transport} (h : added.name ≠ []) :
    ∀ name transport, (registry.transports.put added.name added).lookup name = some transport →
      transport.name = name ∧ name ≠ [] := by
  intro name transport hlookup
  rw [SortedTable.lookup_put] at hlookup
  split at hlookup
  · next hsame =>
      obtain rfl := Option.some.inj hlookup
      exact ⟨hsame.symm, hsame ▸ h⟩
  · exact registry.named name transport hlookup

def register (registry : Registry) : Option Transport → Except RegistryError Registry
  | none => .error .nameRequired
  | some transport =>
      if h : transport.name = [] then .error .nameRequired
      else if (registry.transports.lookup transport.name).isSome then
        .error (.alreadyRegistered transport.name)
      else
        .ok { transports := registry.transports.put transport.name transport
              named := registry.named_put h }

def get (registry : Registry) (name : Bytes) : Except RegistryError Transport :=
  match registry.transports.lookup name with
  | some transport => .ok transport
  | none => .error (.unknownTransport name)

def names (registry : Registry) : List Bytes :=
  registry.transports.rows.map Prod.fst

/-- The variables of `ValidateRoute`. -/
structure Found where
  hasDurable : Bool := false
  hasSettlement : Bool := false
deriving DecidableEq, Repr

/-- The body of the loop of `ValidateRoute`. -/
def visitStage (registry : Registry) (found : Found) (name : Bytes) :
    Except RegistryError Found :=
  if name = [] then .ok found
  else
    match registry.get name with
    | .error err => .error err
    | .ok transport =>
        .ok
          { hasDurable := found.hasDurable || transport.capabilities.durable
            hasSettlement := found.hasSettlement || transport.capabilities.executionSettlement }

def validateRoute (registry : Registry) (route : Route) : Except RegistryError Unit :=
  match route.names.foldlM registry.visitStage {} with
  | .error err => .error err
  | .ok found =>
      if route.requires.durable && !found.hasDurable then .error .noDurableStage
      else if route.requires.executionSettlement && !found.hasSettlement then
        .error .noSettlementStage
      else .ok ()

end Registry

/-! ## Routes -/

namespace Registry

variable {registry : Registry} {route : Route} {name : Bytes}

/-- At least one of the named stages offers the flag. -/
def Offers (registry : Registry) (names : List Bytes) (flag : Flag) : Prop :=
  ∃ name ∈ names, ∃ transport, name ≠ [] ∧ registry.get name = .ok transport ∧
    transport.capabilities.offers flag = true

/-- Every stage that has a name is registered. -/
def Known (registry : Registry) (names : List Bytes) : Prop :=
  ∀ name ∈ names, name ≠ [] → ∃ transport, registry.get name = .ok transport

/-- An accepted route offers every required flag. -/
def Honours (registry : Registry) (route : Route) : Prop :=
  registry.validateRoute route = .ok () →
    ∀ flag, route.requires.demands flag = true → registry.Offers route.names flag

/-- What the check of a route looks at: its names, durability and settlement. -/
structure Admissible (registry : Registry) (route : Route) : Prop where
  known : registry.Known route.names
  durable : route.requires.durable = true → registry.Offers route.names .durable
  settlement : route.requires.executionSettlement = true →
    registry.Offers route.names .executionSettlement

/-- The flags that it does not look at. -/
def unchecked : List Flag :=
  [.reliable, .ordered, .replay, .bidirectional, .consumerGroups, .streaming]

/-- The stage of a name offers the flag. -/
def stageOffers (registry : Registry) (flag : Flag) (name : Bytes) : Bool :=
  match registry.transports.lookup name with
  | some transport => transport.capabilities.offers flag
  | none => false

theorem stageOffers_iff {flag : Flag} :
    registry.stageOffers flag name = true ↔ ∃ transport, name ≠ [] ∧
      registry.get name = .ok transport ∧ transport.capabilities.offers flag = true := by
  unfold stageOffers get
  cases hlookup : registry.transports.lookup name with
  | none => simp
  | some transport => simp [(registry.named name transport hlookup).2]

theorem offers_iff {names : List Bytes} {flag : Flag} :
    registry.Offers names flag ↔ names.any (registry.stageOffers flag) = true := by
  simp only [Offers, List.any_eq_true, stageOffers_iff]

/-- One stage: a name has to be registered, and adds what its transport offers. -/
theorem visitStage_eq_ok_iff {found next : Found} :
    registry.visitStage found name = .ok next ↔
      (name ≠ [] → ∃ transport, registry.get name = .ok transport) ∧
        next =
          { hasDurable := found.hasDurable || registry.stageOffers .durable name
            hasSettlement :=
              found.hasSettlement || registry.stageOffers .executionSettlement name } := by
  unfold visitStage stageOffers get
  cases hlookup : registry.transports.lookup name with
  | none =>
      by_cases hname : name = []
      · simp only [hname, if_true, Except.ok.injEq, ne_eq, not_true_eq_false, false_implies,
          true_and, Bool.or_false]
        exact eq_comm
      · simp [hname]
  | some transport =>
      simp [(registry.named name transport hlookup).2, Capabilities.offers, eq_comm]

/-- **The loop over the stages.** -/
theorem foldlM_visitStage_eq_ok_iff {names : List Bytes} {found next : Found} :
    names.foldlM registry.visitStage found = .ok next ↔
      registry.Known names ∧
        next =
          { hasDurable := found.hasDurable || names.any (registry.stageOffers .durable)
            hasSettlement :=
              found.hasSettlement || names.any (registry.stageOffers .executionSettlement) } := by
  induction names generalizing found with
  | nil => simp [Known, pure, Except.pure, eq_comm]
  | cons name rest ih =>
      rw [List.foldlM_cons, Fallible.bind_eq_ok]
      simp only [visitStage_eq_ok_iff, ih, Known, List.forall_mem_cons, List.any_cons]
      constructor
      · rintro ⟨_, ⟨hname, rfl⟩, hrest, rfl⟩
        exact ⟨⟨hname, hrest⟩, by simp only [Bool.or_assoc]⟩
      · rintro ⟨⟨hname, hrest⟩, rfl⟩
        exact ⟨_, ⟨hname, rfl⟩, hrest, by simp only [Bool.or_assoc]⟩

/-- The check at the end, for one of the two flags. -/
theorem not_missing_iff {required offered : Bool} :
    ¬(required && !offered) = true ↔ (required = true → offered = true) := by
  cases required <;> cases offered <;> simp

theorem validateRoute_eq_ok_iff :
    registry.validateRoute route = .ok () ↔ registry.Admissible route := by
  constructor
  · intro h
    unfold validateRoute at h
    split at h
    · cases h
    · next found hfound =>
        obtain ⟨hknown, rfl⟩ := foldlM_visitStage_eq_ok_iff.mp hfound
        split_ifs at h with hdurable hsettlement
        rw [not_missing_iff, Bool.false_or] at hdurable hsettlement
        exact ⟨hknown, fun hrequired => offers_iff.mpr (hdurable hrequired),
          fun hrequired => offers_iff.mpr (hsettlement hrequired)⟩
  · rintro ⟨hknown, hdurable, hsettlement⟩
    simp only [offers_iff] at hdurable hsettlement
    have hloop : route.names.foldlM registry.visitStage {} = .ok _ :=
      foldlM_visitStage_eq_ok_iff.mpr ⟨hknown, rfl⟩
    simp only [validateRoute, hloop, Bool.false_or]
    rw [if_neg (not_missing_iff.mpr hdurable), if_neg (not_missing_iff.mpr hsettlement)]

/-- The check is complete for requirements without the other flags. -/
theorem honours_iff_unchecked :
    registry.Honours route ↔
      (registry.Admissible route →
        ∀ flag ∈ unchecked, route.requires.demands flag = true →
          registry.Offers route.names flag) := by
  rw [Honours, validateRoute_eq_ok_iff]
  refine imp_congr_right fun hadmissible => ⟨fun h flag _ => h flag, fun h flag hdemands => ?_⟩
  cases flag with
  | durable => exact hadmissible.durable hdemands
  | executionSettlement => exact hadmissible.settlement hdemands
  | reliable => exact h .reliable (by decide) hdemands
  | ordered => exact h .ordered (by decide) hdemands
  | replay => exact h .replay (by decide) hdemands
  | bidirectional => exact h .bidirectional (by decide) hdemands
  | consumerGroups => exact h .consumerGroups (by decide) hdemands
  | streaming => exact h .streaming (by decide) hdemands

end Registry

/-- **Declared requirements.** An accepted route honours its requirements exactly when the flags
that the check does not look at are offered as well: all but durability and settlement in the Go
runtime, and order, acknowledgement, consumer groups and streaming in the Zig runtime. -/
theorem routes_honoured_iff (registry : Registry) (route : Route) (plan : Capability.RoutePlan)
    (required : Capability.Requirements) :
    (registry.Honours route ↔
      (registry.Admissible route →
        ∀ flag ∈ Registry.unchecked, route.requires.demands flag = true →
          registry.Offers route.names flag)) ∧
    (plan.Honours required ↔
      (plan.Admissible required →
        ∀ flag ∈ Capability.RoutePlan.unchecked, required.demands flag = true →
          plan.Offers flag)) :=
  ⟨Registry.honours_iff_unchecked, Capability.RoutePlan.honours_iff_unchecked⟩

/-- A transport that offers no order. -/
def rest : Transport := ⟨ascii "rest", { reliable := true }⟩

theorem rest_named : rest.name ≠ [] := by decide +kernel

/-- The registry with this transport alone. -/
def unordered : Registry where
  transports := SortedTable.empty.put rest.name rest
  named := Registry.new.named_put rest_named

/-- Both runtimes accept a route that is required to be ordered and has no ordered stage. -/
theorem not_honours_ordered :
    ¬unordered.Honours { ingress := ascii "rest", requires := { ordered := true } } ∧
      ¬Capability.RoutePlan.Honours ⟨.rest, .nats, .rest⟩ { ordered := true } := by
  constructor
  · intro h
    have hoffers := h (by decide +kernel) .ordered rfl
    rw [Registry.offers_iff] at hoffers
    exact absurd hoffers (by decide +kernel)
  · intro h
    exact absurd (h (by decide) .ordered rfl) (by decide)

end Ubiq.Routes
