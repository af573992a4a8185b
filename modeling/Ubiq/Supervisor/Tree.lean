import Ubiq.Config.Features
import Ubiq.Foundation.Execution
import Ubiq.Foundation.Keyed
import Mathlib.Data.List.TakeWhile

/-!
# The supervisor tree and its declaration

`supervisor_config.zig` declares which supervisors are intended; `supervisor.zig` keeps a node for
each kind and applies a declaration to the nodes. The declaration is checked twice: as a whole by
`validate`, and once more for each setting by `configure`, with rules of its own.

The loop over the settings writes one node for each, so the tree after it is described setting by
setting; nodes that no setting names are not touched, and a setting that the second check refuses
ends the loop between two writes.
-/

namespace Ubiq.Supervisor

open Foundation Config

/-! ## The declaration -/

/-- `Kind` of both files: the switch between the two enumerations keeps every name. -/
inductive Kind
  | root
  | security
  | transport
  | sharder
  | healing
deriving DecidableEq, Repr

/-- `RestartStrategy` and `Strategy`, with the same names as well. -/
inductive Strategy
  | oneForOne
  | restForOne
  | oneForAll
deriving DecidableEq, Repr

structure Setting where
  kind : Kind
  enabled : Bool := true
  restart : Strategy := .oneForOne
deriving DecidableEq, Repr

inductive ConfigError
  | duplicateSupervisor
  | missingRootSupervisor
  | missingRuntimeFeature
  | missingSupervisorFeature
deriving DecidableEq, Repr

/-- `supervisor_config.Config`. -/
structure Declaration where
  settings : List Setting
deriving DecidableEq, Repr

def hasTransport (runtime : FeatureConfig) : Bool :=
  runtime.isEnabled .transportQuic || runtime.isEnabled .transportHttp ||
    runtime.isEnabled .transportGrpc || runtime.isEnabled .transportWebsocket ||
    runtime.isEnabled .transportNats

/-- The `switch` of `validate`: the runtime has the feature behind the supervisor. -/
def featurePresent (runtime : FeatureConfig) : Kind → Bool
  | .root => true
  | .security => runtime.isEnabled .crypto
  | .transport => hasTransport runtime
  | .sharder => runtime.isEnabled .sharder
  | .healing => runtime.isEnabled .selfHealing

variable {config : Declaration} {runtime : FeatureConfig} {settings : List Setting}
  {setting : Setting}

namespace Declaration

/-- `Config.isEnabled`: the first setting of the kind decides. -/
def isEnabled (config : Declaration) (kind : Kind) : Bool :=
  match config.settings.find? fun setting => setting.kind = kind with
  | some setting => setting.enabled
  | none => false

def strategy (config : Declaration) (kind : Kind) : Option Strategy :=
  (config.settings.find? fun setting => setting.kind = kind && setting.enabled).map Setting.restart

/-- The loop of `validate` behind the settings `previous`. -/
def validateFrom (config : Declaration) (runtime : FeatureConfig) (previous : List Setting) :
    List Setting → Except ConfigError Unit
  | [] => .ok ()
  | setting :: rest =>
      if previous.any fun earlier => earlier.kind = setting.kind then .error .duplicateSupervisor
      else if !setting.enabled then validateFrom config runtime (previous ++ [setting]) rest
      else if setting.kind ≠ .root ∧ config.isEnabled .root = false then
        .error .missingRootSupervisor
      else if !runtime.isEnabled .supervisor then .error .missingSupervisorFeature
      else if !featurePresent runtime setting.kind then .error .missingRuntimeFeature
      else validateFrom config runtime (previous ++ [setting]) rest

def validate (config : Declaration) (runtime : FeatureConfig) : Except ConfigError Unit :=
  config.validateFrom runtime [] config.settings

/-- The declaration has no setting for the kind. -/
def Omits (config : Declaration) (kind : Kind) : Prop :=
  ∀ setting ∈ config.settings, setting.kind ≠ kind

instance (config : Declaration) (kind : Kind) : Decidable (config.Omits kind) :=
  List.decidableBAll _ _

/-- `default_settings`. -/
def standard : Declaration where
  settings :=
    [{ kind := .root, restart := .oneForAll }, { kind := .security },
      { kind := .transport, restart := .restForOne }, { kind := .sharder, enabled := false },
      { kind := .healing, enabled := false }]

/-! ### What a validated declaration gives -/

/-- Each setting has a kind of its own, and an enabled one has its features. -/
structure Validated (runtime : FeatureConfig) (settings : List Setting) : Prop where
  distinct : (settings.map Setting.kind).Nodup
  supervised : ∀ setting ∈ settings, setting.enabled = true → runtime.isEnabled .supervisor = true
  present : ∀ setting ∈ settings, setting.enabled = true →
    featurePresent runtime setting.kind = true

theorem Validated.concat {setting : Setting} (h : Validated runtime settings)
    (hfresh : ∀ earlier ∈ settings, earlier.kind ≠ setting.kind)
    (hchecked : setting.enabled = true →
      runtime.isEnabled .supervisor = true ∧ featurePresent runtime setting.kind = true) :
    Validated runtime (settings ++ [setting]) where
  distinct := Keyed.nodup_concat h.distinct hfresh
  supervised := List.forall_mem_append.mpr
    ⟨h.supervised, List.forall_mem_singleton.mpr fun henabled => (hchecked henabled).1⟩
  present := List.forall_mem_append.mpr
    ⟨h.present, List.forall_mem_singleton.mpr fun henabled => (hchecked henabled).2⟩

theorem validated_of_validateFrom {previous : List Setting} (hprevious : Validated runtime previous)
    (h : config.validateFrom runtime previous settings = .ok ()) :
    Validated runtime (previous ++ settings) := by
  induction settings generalizing previous with
  | nil => simpa using hprevious
  | cons setting rest ih =>
      simp only [validateFrom] at h
      split_ifs at h with hduplicate hdisabled _ hsupervisor hfeature
      all_goals
        rw [List.append_cons]
        refine ih (hprevious.concat (by simpa using hduplicate) fun henabled => ?_) h
      -- The new setting is switched off here, and passed both checks otherwise.
      · simp [henabled] at hdisabled
      · exact ⟨by simpa using hsupervisor, by simpa using hfeature⟩

theorem validated_of_validate (h : config.validate runtime = .ok ()) :
    Validated runtime config.settings :=
  validated_of_validateFrom ⟨by simp, by simp, by simp⟩ h

/-- With distinct kinds the answer of `isEnabled` is the flag of the only setting of the kind. -/
theorem isEnabled_of_mem (hdistinct : (config.settings.map Setting.kind).Nodup)
    (hmem : setting ∈ config.settings) : config.isEnabled setting.kind = setting.enabled := by
  unfold isEnabled
  cases hfind : config.settings.find? fun other => other.kind = setting.kind with
  | none => simpa using List.find?_eq_none.mp hfind setting hmem
  | some other =>
      have hkind : other.kind = setting.kind := by simpa using List.find?_some hfind
      rw [List.inj_on_of_nodup_map hdistinct (List.mem_of_find?_eq_some hfind) hmem hkind]

theorem isEnabled_of_omits {kind : Kind} (h : config.Omits kind) :
    config.isEnabled kind = false := by
  unfold isEnabled
  rw [List.find?_eq_none.mpr (by simpa [Omits] using h)]

end Declaration

/-! ## The tree -/

inductive Health
  | disabled
  | starting
  | healthy
  | degraded
  | unhealthy
deriving DecidableEq, Repr

structure Node where
  kind : Kind
  enabled : Bool
  strategy : Strategy := .oneForOne
  health : Health := .disabled
  restartCount : Nat := 0
  failureCount : Nat := 0
deriving DecidableEq, Repr

inductive SupervisorError
  | missingDependency
  | duplicateSupervisor
  | invalidTransition
  | invalidConfiguration
deriving DecidableEq, Repr

/-- `@intFromEnum`. -/
def Kind.index (kind : Kind) : Fin 5 :=
  ⟨kind.ctorIdx, by cases kind <;> decide⟩

theorem Kind.index_injective : Function.Injective Kind.index := by
  intro first second h
  cases first <;> cases second <;> first | rfl | exact absurd h (by decide)

theorem Kind.index_surjective : Function.Surjective Kind.index := by
  intro position
  fin_cases position
  exacts [⟨.root, rfl⟩, ⟨.security, rfl⟩, ⟨.transport, rfl⟩, ⟨.sharder, rfl⟩, ⟨.healing, rfl⟩]

structure Tree where
  nodes : Vector Node 5 :=
    #v[{ kind := .root, enabled := true, health := .starting },
      { kind := .security, enabled := true, health := .starting },
      { kind := .transport, enabled := true, health := .starting },
      { kind := .sharder, enabled := false }, { kind := .healing, enabled := false }]
deriving DecidableEq, Repr

namespace Tree

/-- The node that a call with this kind points at. -/
def node (tree : Tree) (kind : Kind) : Node :=
  tree.nodes[kind.index]

/-- Assignments through the pointer to the node of a kind. -/
def update (tree : Tree) (kind : Kind) (change : Node → Node) : Tree where
  nodes := tree.nodes.set kind.index (change (tree.node kind))

/-- The checks of `configure`. -/
def dependenciesMet (config : FeatureConfig) (kind : Kind) (enabled : Bool) : Bool :=
  if kind ≠ .root ∧ enabled ∧ !config.isEnabled .supervisor then false
  else if kind = .security ∧ enabled ∧ !config.isEnabled .crypto then false
  else if kind = .transport ∧ enabled ∧ (!config.isEnabled .ubiq ∨ !config.isEnabled .crypto) then
    false
  else if kind = .sharder ∧ enabled ∧ !config.isEnabled .sharder then false
  else if kind = .healing ∧ enabled ∧ !config.isEnabled .selfHealing then false
  else true

/-- What `configure` writes into a node. -/
def assign (enabled : Bool) (strategy : Strategy) (node : Node) : Node :=
  { node with
    enabled := enabled
    strategy := strategy
    health := if enabled then .starting else .disabled }

def configure (tree : Tree) (kind : Kind) (enabled : Bool) (strategy : Strategy)
    (config : FeatureConfig) : Tree × Except SupervisorError Unit :=
  if dependenciesMet config kind enabled then (tree.update kind (assign enabled strategy), .ok ())
  else (tree, .error .missingDependency)

/-- The loop of `configureFromConfig`: the first refused setting ends it. -/
def configureAll (runtime : FeatureConfig) :
    Tree → List Setting → Tree × Except SupervisorError Unit
  | tree, [] => (tree, .ok ())
  | tree, setting :: rest =>
      match tree.configure setting.kind setting.enabled setting.restart runtime with
      | (configured, .ok ()) => configureAll runtime configured rest
      | (configured, .error error) => (configured, .error error)

def configureFromConfig (tree : Tree) (config : Declaration) (runtime : FeatureConfig) :
    Tree × Except SupervisorError Unit :=
  match config.validate runtime with
  | .error _ => (tree, .error .invalidConfiguration)
  | .ok () => configureAll runtime tree config.settings

def markHealthy (tree : Tree) (kind : Kind) : Tree × Except SupervisorError Unit :=
  if (tree.node kind).enabled = false ∨ (tree.node kind).health = .disabled then
    (tree, .error .invalidTransition)
  else (tree.update kind fun node => { node with health := .healthy }, .ok ())

def recordFailure (tree : Tree) (kind : Kind) : Tree :=
  if (tree.node kind).enabled = false then tree
  else
    tree.update kind fun node =>
      { node with failureCount := node.failureCount + 1, health := .unhealthy }

def recordRestart (tree : Tree) (kind : Kind) : Tree :=
  if (tree.node kind).enabled = false then tree
  else
    tree.update kind fun node =>
      { node with restartCount := node.restartCount + 1, health := .starting }

/-! ### Nodes -/

variable {tree : Tree} {kind : Kind}

theorem node_update (tree : Tree) (kind : Kind) (change : Node → Node) (other : Kind) :
    (tree.update kind change).node other =
      if kind = other then change (tree.node kind) else tree.node other := by
  have hindex : (kind.index : Nat) = other.index ↔ kind = other :=
    ⟨fun h => Kind.index_injective (Fin.ext h), fun h => by rw [h]⟩
  simp [node, update, Vector.getElem_set, hindex]

theorem ext_node {first second : Tree} (h : ∀ kind, first.node kind = second.node kind) :
    first = second := by
  obtain ⟨first⟩ := first
  obtain ⟨second⟩ := second
  congr 1
  ext position hposition : 1
  obtain ⟨kind, hkind⟩ := Kind.index_surjective ⟨position, hposition⟩
  simpa [node, hkind] using h kind

/-- What the checks of `configure` ask beyond those of `validate`: an enabled transport
supervisor needs the core and the cryptography, whichever transport feature is on. -/
def Supported (runtime : FeatureConfig) (settings : List Setting) : Prop :=
  ∀ setting ∈ settings, setting.kind = .transport → setting.enabled = true →
    runtime.isEnabled .ubiq = true ∧ runtime.isEnabled .crypto = true

instance (runtime : FeatureConfig) (settings : List Setting) :
    Decidable (Supported runtime settings) :=
  List.decidableBAll _ _

theorem dependenciesMet_iff (h : Declaration.Validated runtime settings)
    (hmem : setting ∈ settings) :
    dependenciesMet runtime setting.kind setting.enabled = true ↔
      (setting.kind = .transport → setting.enabled = true →
        runtime.isEnabled .ubiq = true ∧ runtime.isEnabled .crypto = true) := by
  have hsupervisor := h.supervised setting hmem
  have hfeature := h.present setting hmem
  cases henabled : setting.enabled with
  | false => simp [dependenciesMet]
  | true =>
      have hsupervisor := hsupervisor henabled
      have hfeature := hfeature henabled
      cases hkind : setting.kind <;> rw [hkind] at hfeature <;>
        simp_all [dependenciesMet, featurePresent]

/-! ### The loop over the settings -/

/-- The write for one setting. -/
def apply (tree : Tree) (setting : Setting) : Tree :=
  tree.update setting.kind (assign setting.enabled setting.restart)

/-- The node is already as the setting declares it. -/
def Applied (tree : Tree) (setting : Setting) : Prop :=
  assign setting.enabled setting.restart (tree.node setting.kind) = tree.node setting.kind

instance (tree : Tree) (setting : Setting) : Decidable (tree.Applied setting) :=
  inferInstanceAs (Decidable (_ = _))

theorem configure_eq (tree : Tree) (setting : Setting) (runtime : FeatureConfig) :
    tree.configure setting.kind setting.enabled setting.restart runtime =
      if dependenciesMet runtime setting.kind setting.enabled then (tree.apply setting, .ok ())
      else (tree, .error .missingDependency) := rfl

theorem configureAll_of_met
    (h : ∀ setting ∈ settings, dependenciesMet runtime setting.kind setting.enabled = true)
    (rest : List Setting) (tree : Tree) :
    configureAll runtime tree (settings ++ rest) =
      configureAll runtime (settings.foldl apply tree) rest := by
  induction settings generalizing tree with
  | nil => rfl
  | cons setting settings ih =>
      obtain ⟨hfirst, hlater⟩ := List.forall_mem_cons.mp h
      simp only [List.cons_append, configureAll, configure_eq, hfirst, if_true, List.foldl_cons]
      exact ih hlater _

/-- Settings of other kinds leave a node alone. -/
theorem node_foldl_of_ne (h : ∀ setting ∈ settings, setting.kind ≠ kind) (tree : Tree) :
    (settings.foldl apply tree).node kind = tree.node kind := by
  induction settings generalizing tree with
  | nil => rfl
  | cons setting settings ih =>
      obtain ⟨hfirst, hlater⟩ := List.forall_mem_cons.mp h
      rw [List.foldl_cons, ih hlater, apply, node_update, if_neg hfirst]

/-- With distinct kinds each setting decides the node of its kind. -/
theorem node_foldl_of_mem (hdistinct : (settings.map Setting.kind).Nodup)
    (hmem : setting ∈ settings) (tree : Tree) :
    (settings.foldl apply tree).node setting.kind =
      assign setting.enabled setting.restart (tree.node setting.kind) := by
  induction settings generalizing tree with
  | nil => cases hmem
  | cons first settings ih =>
      obtain ⟨hfresh, hdistinct⟩ := List.nodup_cons.mp hdistinct
      have hother : ∀ other ∈ settings, other.kind ≠ first.kind := fun other hother heq =>
        hfresh (heq ▸ List.mem_map_of_mem hother)
      rw [List.foldl_cons]
      rcases List.mem_cons.mp hmem with rfl | hmem
      · rw [node_foldl_of_ne hother, apply, node_update, if_pos rfl]
      · rw [ih hdistinct hmem, apply, node_update, if_neg (hother setting hmem).symm]

theorem foldl_apply_eq_self_iff (hdistinct : (settings.map Setting.kind).Nodup) (tree : Tree) :
    settings.foldl apply tree = tree ↔ ∀ setting ∈ settings, tree.Applied setting := by
  constructor
  · intro h setting hmem
    have hnode := node_foldl_of_mem hdistinct hmem tree
    rw [h] at hnode
    exact hnode.symm
  · intro h
    refine ext_node fun kind => ?_
    by_cases hkind : ∃ setting ∈ settings, setting.kind = kind
    · obtain ⟨setting, hmem, rfl⟩ := hkind
      rw [node_foldl_of_mem hdistinct hmem, h setting hmem]
    · push Not at hkind
      exact node_foldl_of_ne hkind tree

/-- The settings in front of the one for the transport supervisor. -/
def beforeTransport (settings : List Setting) : List Setting :=
  settings.takeWhile fun setting => setting.kind ≠ .transport

/-- The tree as the declaration describes it. -/
structure Matches (tree : Tree) (config : Declaration) : Prop where
  enabled : ∀ kind, (tree.node kind).enabled = config.isEnabled kind
  health : ∀ kind, (tree.node kind).enabled = false → (tree.node kind).health = .disabled
  strategy : ∀ setting ∈ config.settings, (tree.node setting.kind).strategy = setting.restart

/-- The tree is left alone or matches its declaration, as the result says. -/
def FollowsDeclaration (tree : Tree) (config : Declaration) (runtime : FeatureConfig) : Prop :=
  match tree.configureFromConfig config runtime with
  | (after, .error _) => after = tree
  | (after, .ok ()) => after.Matches config

/-- A kind that no setting names has a node that is switched off already. -/
def OmittedOff (tree : Tree) (config : Declaration) : Prop :=
  ∀ kind, config.Omits kind →
    (tree.node kind).enabled = false ∧ (tree.node kind).health = .disabled

theorem configureAll_of_supported (hvalid : Declaration.Validated runtime settings)
    (h : Supported runtime settings) (tree : Tree) :
    configureAll runtime tree settings = (settings.foldl apply tree, .ok ()) := by
  have hmet : ∀ setting ∈ settings,
      dependenciesMet runtime setting.kind setting.enabled = true := fun setting hmem =>
    (dependenciesMet_iff hvalid hmem).mpr (h setting hmem)
  simpa [configureAll] using configureAll_of_met hmet [] tree

/-- A transport supervisor without its features ends the loop behind the settings before it. -/
theorem configureAll_of_not_supported (hvalid : Declaration.Validated runtime settings)
    (h : ¬ Supported runtime settings) (tree : Tree) :
    configureAll runtime tree settings =
      ((beforeTransport settings).foldl apply tree, .error .missingDependency) := by
  unfold Supported at h
  push Not at h
  obtain ⟨setting, hmem, hkind, henabled, hmissing⟩ := h
  have hrefused : dependenciesMet runtime setting.kind setting.enabled = false := by
    rw [Bool.eq_false_iff]
    intro hmet
    obtain ⟨hubiq, hcrypto⟩ := (dependenciesMet_iff hvalid hmem).mp hmet hkind henabled
    exact hmissing hubiq hcrypto
  obtain ⟨before, rest, rfl⟩ := List.append_of_mem hmem
  have hdistinct := hvalid.distinct
  rw [List.map_append, List.map_cons, List.nodup_append] at hdistinct
  have hother : ∀ other ∈ before, other.kind ≠ .transport := fun other hother heq =>
    hdistinct.2.2 other.kind (List.mem_map_of_mem hother) setting.kind (by simp) (by rw [heq, hkind])
  have hbefore : beforeTransport (before ++ setting :: rest) = before := by
    rw [beforeTransport, List.takeWhile_append_of_pos (by simpa using hother)]
    simp [hkind]
  have hmet : ∀ other ∈ before, dependenciesMet runtime other.kind other.enabled = true :=
    fun other hmem => (dependenciesMet_iff hvalid (by simp [hmem])).mpr fun htransport =>
      absurd htransport (hother other hmem)
  rw [configureAll_of_met hmet, hbefore]
  simp [configureAll, configure_eq, hrefused]

/-- The settings alone make the tree match, apart from the kinds they omit. -/
theorem matches_foldl_iff (hdistinct : (config.settings.map Setting.kind).Nodup) (tree : Tree) :
    (config.settings.foldl apply tree).Matches config ↔ tree.OmittedOff config := by
  constructor
  · intro h kind homitted
    have hnode := node_foldl_of_ne homitted tree
    have henabled := h.enabled kind
    have hhealth := h.health kind
    rw [hnode] at henabled hhealth
    rw [Declaration.isEnabled_of_omits homitted] at henabled
    exact ⟨henabled, hhealth henabled⟩
  · intro h
    -- Every kind is either named by one setting or omitted.
    have hcases : ∀ kind, (∃ setting ∈ config.settings, setting.kind = kind) ∨ config.Omits kind := by
      intro kind
      by_cases hkind : ∃ setting ∈ config.settings, setting.kind = kind
      · exact .inl hkind
      · push Not at hkind
        exact .inr hkind
    refine ⟨fun kind => ?_, fun kind => ?_, fun setting hmem => ?_⟩
    · rcases hcases kind with ⟨setting, hmem, rfl⟩ | homitted
      · rw [node_foldl_of_mem hdistinct hmem, Declaration.isEnabled_of_mem hdistinct hmem]
        rfl
      · rw [node_foldl_of_ne homitted, Declaration.isEnabled_of_omits homitted]
        exact (h kind homitted).1
    · rcases hcases kind with ⟨setting, hmem, rfl⟩ | homitted
      · rw [node_foldl_of_mem hdistinct hmem]
        intro henabled
        simp [assign, show setting.enabled = false from henabled]
      · rw [node_foldl_of_ne homitted]
        exact fun _ => (h kind homitted).2
    · rw [node_foldl_of_mem hdistinct hmem]
      rfl

theorem followsDeclaration_iff_omittedOff (hvalidate : config.validate runtime = .ok ())
    (hsupported : Supported runtime config.settings) (tree : Tree) :
    tree.FollowsDeclaration config runtime ↔ tree.OmittedOff config := by
  have hvalid := Declaration.validated_of_validate hvalidate
  simp only [FollowsDeclaration, configureFromConfig, hvalidate,
    configureAll_of_supported hvalid hsupported]
  exact matches_foldl_iff hvalid.distinct tree

theorem followsDeclaration_iff_applied (hvalidate : config.validate runtime = .ok ())
    (hsupported : ¬ Supported runtime config.settings) (tree : Tree) :
    tree.FollowsDeclaration config runtime ↔
      ∀ setting ∈ beforeTransport config.settings, tree.Applied setting := by
  have hvalid := Declaration.validated_of_validate hvalidate
  have hdistinct : ((beforeTransport config.settings).map Setting.kind).Nodup :=
    hvalid.distinct.sublist ((List.takeWhile_sublist _).map _)
  simp only [FollowsDeclaration, configureFromConfig, hvalidate,
    configureAll_of_not_supported hvalid hsupported]
  exact foldl_apply_eq_self_iff hdistinct tree

/-- **When a declaration is followed.** A declaration that does not pass its validation changes
nothing. One that passes is applied faithfully exactly when every kind it omits is off already,
if the features of an enabled transport supervisor are there; without them, the tree is left alone
exactly when the settings in front of it say nothing new. -/
theorem followsDeclaration_iff (tree : Tree) (config : Declaration) (runtime : FeatureConfig) :
    tree.FollowsDeclaration config runtime ↔
      (config.validate runtime = .ok () →
        if Supported runtime config.settings then tree.OmittedOff config
        else ∀ setting ∈ beforeTransport config.settings, tree.Applied setting) := by
  by_cases hvalidate : config.validate runtime = .ok ()
  · simp only [hvalidate, forall_const]
    split_ifs with hsupported
    · exact followsDeclaration_iff_omittedOff hvalidate hsupported tree
    · exact followsDeclaration_iff_applied hvalidate hsupported tree
  · simp only [hvalidate, false_implies, iff_true]
    unfold FollowsDeclaration configureFromConfig
    cases hresult : config.validate runtime with
    | error error => rfl
    | ok _ => exact absurd hresult hvalidate

/-- A declaration that names only the root leaves the other supervisors of the default tree on, and
one whose transport supervisor lacks the cryptography has switched the root before it is refused. -/
theorem not_followsDeclaration_default :
    ¬ FollowsDeclaration {} ⟨[{ kind := .root }]⟩ ⟨.minimal, defaults .minimal⟩ ∧
      ¬ FollowsDeclaration {} ⟨[{ kind := .root, restart := .oneForAll }, { kind := .transport }]⟩
        ⟨.custom, [.ubiq, .supervisor, .transportHttp]⟩ := by
  constructor
  · intro h
    have hnode := Matches.enabled h .security
    exact absurd hnode (by decide)
  · intro h
    have hsame : (configureFromConfig {}
        ⟨[{ kind := .root, restart := .oneForAll }, { kind := .transport }]⟩
        ⟨.custom, [.ubiq, .supervisor, .transportHttp]⟩).1 = {} := h
    exact absurd hsame (by decide)

end Tree
end Ubiq.Supervisor
