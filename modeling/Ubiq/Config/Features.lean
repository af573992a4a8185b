import Ubiq.Foundation.Bytes

/-!
# Profiles, features and their dependencies

The feature sets of `features.zig` and the graph check of `dependency_graph.zig`, as the runtime
configuration uses them.
-/

namespace Ubiq.Config

open Foundation

inductive Profile
  | minimal
  | secure
  | full
  | custom
deriving DecidableEq, Repr

inductive Feature
  | ubiq
  | supervisor
  | mtls
  | dpop
  | replayGuard
  | sharder
  | eventSourcing
  | crypto
  | projection
  | selfHealing
  | predictiveSelfHealing
  | shadowSimulation
  | humanInTheHealingLoop
  | transportQuic
  | transportHttp
  | transportGrpc
  | transportWebsocket
  | transportNats
deriving DecidableEq, Repr

/-- The profiles in the order of the enumeration. -/
def Profile.all : List Profile := [.minimal, .secure, .full, .custom]

/-- The features in the order of the enumeration. -/
def Feature.all : List Feature :=
  [.ubiq, .supervisor, .mtls, .dpop, .replayGuard, .sharder, .eventSourcing, .crypto, .projection,
    .selfHealing, .predictiveSelfHealing, .shadowSimulation, .humanInTheHealingLoop,
    .transportQuic, .transportHttp, .transportGrpc, .transportWebsocket, .transportNats]

/-- The tag name of a profile. -/
def Profile.name : Profile → Bytes
  | .minimal => ascii "minimal"
  | .secure => ascii "secure"
  | .full => ascii "full"
  | .custom => ascii "custom"

/-- The tag name of a feature. -/
def Feature.name : Feature → Bytes
  | .ubiq => ascii "ubiq"
  | .supervisor => ascii "supervisor"
  | .mtls => ascii "mtls"
  | .dpop => ascii "dpop"
  | .replayGuard => ascii "replay_guard"
  | .sharder => ascii "sharder"
  | .eventSourcing => ascii "event_sourcing"
  | .crypto => ascii "crypto"
  | .projection => ascii "projection"
  | .selfHealing => ascii "self_healing"
  | .predictiveSelfHealing => ascii "predictive_self_healing"
  | .shadowSimulation => ascii "shadow_simulation"
  | .humanInTheHealingLoop => ascii "human_in_the_healing_loop"
  | .transportQuic => ascii "transport_quic"
  | .transportHttp => ascii "transport_http"
  | .transportGrpc => ascii "transport_grpc"
  | .transportWebsocket => ascii "transport_websocket"
  | .transportNats => ascii "transport_nats"

def stringToEnum {α : Type} (all : List α) (name : α → Bytes) (text : Bytes) : Option α :=
  all.find? fun value => name value = text

theorem name_of_stringToEnum {α : Type} {all : List α} {name : α → Bytes} {text : Bytes} {value : α}
    (h : stringToEnum all name text = some value) : name value = text := by
  simpa using List.find?_some h

/-- With distinct names, a text is read as the value that it names. -/
theorem stringToEnum_eq_some_iff {α : Type} {all : List α} {name : α → Bytes} {text : Bytes}
    {value : α} (hall : ∀ value, value ∈ all) (hnodup : (all.map name).Nodup) :
    stringToEnum all name text = some value ↔ text = name value := by
  constructor
  · exact fun h => (name_of_stringToEnum h).symm
  · rintro rfl
    cases hfind : stringToEnum all name (name value) with
    | none =>
        have hother : name value ≠ name value := by
          simpa using List.find?_eq_none.mp hfind value (hall value)
        exact absurd rfl hother
    | some found =>
        have hname := name_of_stringToEnum hfind
        exact congrArg some (List.inj_on_of_nodup_map hnodup (hall found) (hall value) hname)

/-- `Config`. -/
structure FeatureConfig where
  profile : Profile
  enabled : List Feature
deriving DecidableEq, Repr

inductive ValidationError
  | missingDependency
  | duplicateFeature
deriving DecidableEq, Repr

namespace FeatureConfig

def isEnabled (config : FeatureConfig) (feature : Feature) : Bool :=
  feature ∈ config.enabled

/-- The `switch` of `validate`: what the feature needs is enabled. -/
def dependenciesMet (config : FeatureConfig) : Feature → Bool
  | .supervisor => config.isEnabled .ubiq
  | .mtls | .replayGuard => config.isEnabled .crypto
  | .dpop => config.isEnabled .crypto && config.isEnabled .transportHttp
  | .sharder => config.isEnabled .ubiq && config.isEnabled .supervisor
  | .projection => config.isEnabled .eventSourcing
  | .predictiveSelfHealing => config.isEnabled .selfHealing
  | .transportQuic | .transportHttp | .transportGrpc | .transportWebsocket | .transportNats =>
      config.isEnabled .ubiq && config.isEnabled .supervisor && config.isEnabled .crypto
  | _ => true

/-- The loop of `validate` behind the features `previous`. -/
def validateFrom (config : FeatureConfig) (previous : List Feature) :
    List Feature → Except ValidationError Unit
  | [] => .ok ()
  | feature :: rest =>
      if feature ∈ previous then .error .duplicateFeature
      else if !config.dependenciesMet feature then .error .missingDependency
      else validateFrom config (previous ++ [feature]) rest

def validate (config : FeatureConfig) : Except ValidationError Unit :=
  config.validateFrom [] config.enabled

variable {config : FeatureConfig}

theorem validateFrom_eq_ok_iff {previous features : List Feature} :
    config.validateFrom previous features = .ok () ↔
      (∀ feature ∈ features, feature ∉ previous) ∧ features.Nodup ∧
        ∀ feature ∈ features, config.dependenciesMet feature = true := by
  induction features generalizing previous with
  | nil => simp [validateFrom]
  | cons first rest ih =>
      rw [validateFrom, List.nodup_cons, List.forall_mem_cons, List.forall_mem_cons]
      by_cases hduplicate : first ∈ previous
      · simp [hduplicate]
      · by_cases hmet : config.dependenciesMet first = true
        · simp only [hduplicate, hmet, if_false, Bool.not_true, Bool.false_eq_true, ih,
            List.mem_append, List.mem_singleton, not_or, not_false_eq_true, true_and]
          constructor
          · rintro ⟨hfresh, hnodup, hall⟩
            refine ⟨fun feature hmem => (hfresh feature hmem).1, ⟨fun hmem => ?_, hnodup⟩, hall⟩
            exact (hfresh first hmem).2 rfl
          · rintro ⟨hfresh, ⟨hfirst, hnodup⟩, hall⟩
            refine ⟨fun feature hmem => ⟨hfresh feature hmem, ?_⟩, hnodup, hall⟩
            rintro rfl
            exact hfirst hmem
        · simp [hduplicate, hmet]

/-- **What `validate` accepts**: distinct features, each with what it needs. -/
theorem validate_eq_ok_iff :
    config.validate = .ok () ↔
      config.enabled.Nodup ∧ ∀ feature, config.isEnabled feature = true →
        config.dependenciesMet feature = true := by
  simp [validate, validateFrom_eq_ok_iff, isEnabled]

end FeatureConfig

def defaults : Profile → List Feature
  | .minimal => [.ubiq, .supervisor]
  | .secure => [.ubiq, .supervisor, .crypto, .mtls, .replayGuard]
  | .full =>
      [.ubiq, .supervisor, .crypto, .mtls, .dpop, .replayGuard, .sharder, .eventSourcing,
        .projection, .selfHealing, .predictiveSelfHealing, .shadowSimulation,
        .humanInTheHealingLoop, .transportQuic, .transportHttp, .transportGrpc,
        .transportWebsocket, .transportNats]
  | .custom => []

/-! ## The dependency graph -/

inductive Relation
  | required
  | optional
  | conflicts
deriving DecidableEq, Repr

structure Edge where
  source : Feature
  target : Feature
  relation : Relation
deriving DecidableEq, Repr

inductive GraphError
  | missingRequiredDependency
  | conflictingFeatures
  | dependencyCycle
deriving DecidableEq, Repr

def defaultEdges : List Edge :=
  [⟨.supervisor, .ubiq, .required⟩, ⟨.mtls, .crypto, .required⟩, ⟨.replayGuard, .crypto, .required⟩,
    ⟨.dpop, .crypto, .required⟩, ⟨.dpop, .transportHttp, .required⟩,
    ⟨.sharder, .supervisor, .required⟩, ⟨.projection, .eventSourcing, .required⟩,
    ⟨.predictiveSelfHealing, .selfHealing, .required⟩, ⟨.transportQuic, .crypto, .required⟩,
    ⟨.transportHttp, .crypto, .required⟩, ⟨.transportGrpc, .crypto, .required⟩,
    ⟨.transportWebsocket, .crypto, .required⟩, ⟨.transportNats, .crypto, .required⟩]

/-- The colours of `visit`: `0`, `1` and `2` in the source. -/
inductive Color
  | unvisited
  | onPath
  | done
deriving DecidableEq, Repr

/-- `visit`. Every nested call has one more feature on the path, so the number of features is
enough fuel; a call without fuel gives nothing. -/
def visit (edges : List Edge) :
    Nat → Feature → (Feature → Color) → ExceptT GraphError Option (Feature → Color)
  | 0, _, _ => ExceptT.mk none
  | fuel + 1, node, colors =>
      match colors node with
      | .onPath => throw .dependencyCycle
      | .done => pure colors
      | .unvisited => do
          let painted ← edges.foldlM
            (fun colors edge =>
              if edge.relation ≠ .required ∨ edge.source ≠ node then pure colors
              else visit edges fuel edge.target colors)
            (Function.update colors node .onPath)
          pure (Function.update painted node .done)

def detectCycles (edges : List Edge) : Except GraphError Unit :=
  let painted := Feature.all.foldlM
    (fun colors node =>
      if colors node = .unvisited then visit edges (Feature.all.length + 1) node colors
      else pure colors)
    (fun _ => Color.unvisited)
  match painted.run with
  | some (.ok _) => .ok ()
  | some (.error err) => .error err
  | none => .error .dependencyCycle

/-- The edge loop of `validate`. -/
def checkEdges (config : FeatureConfig) : List Edge → Except GraphError Unit
  | [] => .ok ()
  | edge :: rest =>
      match edge.relation with
      | .required =>
          if config.isEnabled edge.source && !config.isEnabled edge.target then
            .error .missingRequiredDependency
          else checkEdges config rest
      | .conflicts =>
          if config.isEnabled edge.source && config.isEnabled edge.target then
            .error .conflictingFeatures
          else checkEdges config rest
      | .optional => checkEdges config rest

/-- `dependency_graph.validate`. -/
def validateGraph (config : FeatureConfig) (edges : List Edge) : Except GraphError Unit :=
  match checkEdges config edges with
  | .error err => .error err
  | .ok _ => detectCycles edges

end Ubiq.Config
