import Ubiq.Config.Features
import Ubiq.Foundation.Execution

/-!
# The transport registry

The registry of `transports.zig` over the selection of `transport_config.zig`. Initialisation
decides which transports are disabled; the calls that follow start a transport, report it
healthy, or record a publication or a reconnection.

A registry has one entry for each kind, found at the position of the kind in the enumeration.
That the entry there carries this kind is part of the type.
-/

namespace Ubiq.Transports

open Foundation Config

/-! ## The selection -/

/-- `Kind` of both files: the switch between the two enumerations keeps every name. -/
inductive Kind
  | quic
  | http
  | grpc
  | websocket
  | nats
deriving DecidableEq, Repr

def featureFor : Kind → Feature
  | .quic => .transportQuic
  | .http => .transportHttp
  | .grpc => .transportGrpc
  | .websocket => .transportWebsocket
  | .nats => .transportNats

structure Setting where
  kind : Kind
  enabled : Bool := true
deriving DecidableEq, Repr

/-- `ConfigError`. -/
inductive SelectionError
  | duplicateTransport
  | featureNotEnabled
deriving DecidableEq, Repr

/-- `transport_config.Config`. -/
structure Selection where
  settings : List Setting
deriving DecidableEq, Repr

def featureEnabled (runtime : FeatureConfig) : Kind → Bool
  | .quic => runtime.isEnabled .transportQuic
  | .http => runtime.isEnabled .transportHttp
  | .grpc => runtime.isEnabled .transportGrpc
  | .websocket => runtime.isEnabled .transportWebsocket
  | .nats => runtime.isEnabled .transportNats

theorem featureEnabled_eq (runtime : FeatureConfig) (kind : Kind) :
    featureEnabled runtime kind = runtime.isEnabled (featureFor kind) := by
  cases kind <;> rfl

namespace Selection

/-- The loop of `isEnabled`. -/
def enabledIn : List Setting → Kind → Bool
  | [], _ => false
  | setting :: rest, kind => if setting.kind = kind then setting.enabled else enabledIn rest kind

/-- `Config.isEnabled`: the first setting of the kind decides. -/
def isEnabled (selection : Selection) (kind : Kind) : Bool :=
  enabledIn selection.settings kind

/-- The loop of `validate` behind the settings `previous`. -/
def validateFrom (runtime : FeatureConfig) (previous : List Setting) :
    List Setting → Except SelectionError Unit
  | [] => .ok ()
  | setting :: rest =>
      if previous.any fun earlier => earlier.kind = setting.kind then .error .duplicateTransport
      else if setting.enabled ∧ featureEnabled runtime setting.kind = false then
        .error .featureNotEnabled
      else validateFrom runtime (previous ++ [setting]) rest

def validate (selection : Selection) (runtime : FeatureConfig) : Except SelectionError Unit :=
  validateFrom runtime [] selection.settings

/-- A validated selection enables no transport whose feature is off. -/
theorem featureEnabled_of_validateFrom {runtime : FeatureConfig} {previous settings : List Setting}
    (h : validateFrom runtime previous settings = .ok ()) {kind : Kind}
    (hkind : enabledIn settings kind = true) : featureEnabled runtime kind = true := by
  induction settings generalizing previous with
  | nil => exact absurd hkind Bool.false_ne_true
  | cons setting rest ih =>
      simp only [validateFrom] at h
      split_ifs at h with hduplicate hfeature
      simp only [enabledIn] at hkind
      split_ifs at hkind with hsame
      · subst hsame
        simpa [hkind] using hfeature
      · exact ih h hkind

end Selection

/-! ## The registry -/

inductive State
  | disabled
  | stopped
  | starting
  | healthy
  | degraded
  | unhealthy
deriving DecidableEq, Repr

structure Entry where
  kind : Kind
  state : State := .stopped
  published : Nat := 0
  failed : Nat := 0
  reconnects : Nat := 0
deriving DecidableEq, Repr

inductive TransportError
  | featureDisabled
  | invalidTransition
  | invalidConfiguration
deriving DecidableEq, Repr

/-- `@intFromEnum`. -/
def Kind.index : Kind → Fin 5
  | .quic => 0
  | .http => 1
  | .grpc => 2
  | .websocket => 3
  | .nats => 4

theorem Kind.index_injective : Function.Injective Kind.index := by
  intro first second h
  cases first <;> cases second <;> first | rfl | exact absurd h (by decide)

/-- `Registry`: the entry at the position of a kind is the entry of this kind. -/
structure Registry where
  entries : Vector Entry 5
  labelled : ∀ kind : Kind, entries[kind.index].kind = kind

namespace Registry

variable {registry : Registry} {kind : Kind} {change : Entry → Entry}

/-- The entry that a call with this kind points at. -/
def entry (registry : Registry) (kind : Kind) : Entry :=
  registry.entries[kind.index]

theorem kind_entry (registry : Registry) (kind : Kind) : (registry.entry kind).kind = kind :=
  registry.labelled kind

theorem labelled_fresh (kind : Kind) :
    (#v[({ kind := .quic } : Entry), { kind := .http }, { kind := .grpc }, { kind := .websocket },
      { kind := .nats }])[kind.index].kind = kind := by
  cases kind <;> rfl

/-- The registry before its first initialisation. -/
def fresh : Registry where
  entries := #v[{ kind := .quic }, { kind := .http }, { kind := .grpc }, { kind := .websocket },
    { kind := .nats }]
  labelled := labelled_fresh

theorem labelled_map (registry : Registry) (hchange : ∀ entry, (change entry).kind = entry.kind)
    (kind : Kind) :
    (registry.entries.map change)[kind.index].kind = kind := by
  rw [Fin.getElem_fin, Vector.getElem_map, hchange]
  exact registry.labelled kind

/-- The loops over all entries. -/
def mapEntries (registry : Registry) (change : Entry → Entry)
    (hchange : ∀ entry, (change entry).kind = entry.kind) : Registry where
  entries := registry.entries.map change
  labelled := registry.labelled_map hchange

theorem labelled_set (registry : Registry) (kind : Kind)
    (hchange : ∀ entry, (change entry).kind = entry.kind) (other : Kind) :
    (registry.entries.set kind.index (change (registry.entry kind)))[other.index].kind = other := by
  rw [Fin.getElem_fin, Vector.getElem_set]
  split_ifs with hsame
  · rw [hchange, kind_entry]
    exact Kind.index_injective (Fin.ext hsame)
  · exact registry.labelled other

/-- An assignment through the pointer to the entry of a kind. -/
def update (registry : Registry) (kind : Kind) (change : Entry → Entry)
    (hchange : ∀ entry, (change entry).kind = entry.kind) : Registry where
  entries := registry.entries.set kind.index (change (registry.entry kind))
  labelled := registry.labelled_set kind hchange

@[simp] theorem entry_mapEntries (hchange : ∀ entry, (change entry).kind = entry.kind) :
    (registry.mapEntries change hchange).entry kind = change (registry.entry kind) := by
  simp [entry, mapEntries]

theorem entry_update (hchange : ∀ entry, (change entry).kind = entry.kind) (other : Kind) :
    (registry.update kind change hchange).entry other =
      if kind = other then change (registry.entry kind) else registry.entry other := by
  have hindex : (kind.index : Nat) = other.index ↔ kind = other :=
    ⟨fun h => Kind.index_injective (Fin.ext h), fun h => by rw [h]⟩
  simp [entry, update, Vector.getElem_set, hindex]

/-- `initialize`. -/
def initializeEntries (registry : Registry) (config : FeatureConfig) : Registry :=
  registry.mapEntries
    (fun entry =>
      { entry with
        state := if config.isEnabled (featureFor entry.kind) then .stopped else .disabled })
    fun _ => rfl

def initializeWithConfig (registry : Registry) (runtime : FeatureConfig) (selection : Selection) :
    Except TransportError Registry :=
  match selection.validate runtime with
  | .error _ => .error .invalidConfiguration
  | .ok () =>
      .ok (registry.mapEntries
        (fun entry =>
          { entry with
            state :=
              if runtime.isEnabled (featureFor entry.kind) ∧ selection.isEnabled entry.kind then
                .stopped
              else .disabled })
        fun _ => rfl)

def start (registry : Registry) (kind : Kind) : Registry × Except TransportError Unit :=
  if (registry.entry kind).state = .disabled then (registry, .error .featureDisabled)
  else if (registry.entry kind).state ≠ .stopped ∧ (registry.entry kind).state ≠ .unhealthy ∧
      (registry.entry kind).state ≠ .degraded then
    (registry, .error .invalidTransition)
  else
    (registry.update kind (fun entry => { entry with state := .starting }) fun _ => rfl, .ok ())

def markHealthy (registry : Registry) (kind : Kind) : Registry × Except TransportError Unit :=
  if (registry.entry kind).state ≠ .starting ∧ (registry.entry kind).state ≠ .degraded then
    (registry, .error .invalidTransition)
  else
    (registry.update kind (fun entry => { entry with state := .healthy }) fun _ => rfl, .ok ())

/-- `recordPublish`: a failed publication degrades the entry whatever state it is in. -/
def recordPublish (registry : Registry) (kind : Kind) (ok : Bool) : Registry :=
  if ok then
    registry.update kind (fun entry => { entry with published := entry.published + 1 }) fun _ => rfl
  else
    registry.update kind
      (fun entry => { entry with failed := entry.failed + 1, state := .degraded }) fun _ => rfl

/-- `recordReconnect`: a disabled entry keeps its state. -/
def recordReconnect (registry : Registry) (kind : Kind) : Registry :=
  registry.update kind
    (fun entry =>
      { entry with
        reconnects := entry.reconnects + 1
        state := if entry.state ≠ .disabled then .starting else entry.state })
    fun _ => rfl

/-! ## Which transports initialisation disables -/

theorem disabled_initializeEntries_iff (config : FeatureConfig) :
    ((registry.initializeEntries config).entry kind).state = .disabled ↔
      config.isEnabled (featureFor kind) = false := by
  simp [initializeEntries, kind_entry]

/-- The selection alone decides: validation has excluded a selected transport without feature. -/
theorem disabled_initializeWithConfig_iff {runtime : FeatureConfig} {selection : Selection}
    {opened : Registry} (h : registry.initializeWithConfig runtime selection = .ok opened) :
    (opened.entry kind).state = .disabled ↔ selection.isEnabled kind = false := by
  simp only [initializeWithConfig] at h
  split at h
  · cases h
  · next hvalid =>
      obtain rfl := Except.ok.inj h
      have hfeature : selection.isEnabled kind = true →
          runtime.isEnabled (featureFor kind) = true := fun hselected =>
        featureEnabled_eq runtime kind ▸ Selection.featureEnabled_of_validateFrom hvalid hselected
      simp only [entry_mapEntries, kind_entry, ite_eq_right_iff, reduceCtorEq, imp_false, not_and,
        Bool.not_eq_true]
      constructor
      · intro hdisabled
        cases hselected : selection.isEnabled kind with
        | false => rfl
        | true =>
            rw [← hselected]
            exact hdisabled (hfeature hselected)
      · exact fun hunselected _ => hunselected

/-! ## Runs -/

/-- The calls between two initialisations. -/
inductive Call
  | start (kind : Kind)
  | markHealthy (kind : Kind)
  | recordPublish (kind : Kind) (ok : Bool)
  | recordReconnect (kind : Kind)
deriving DecidableEq, Repr

/-- One call. -/
def perform (registry : Registry) : Call → Registry
  | .start kind => (registry.start kind).1
  | .markHealthy kind => (registry.markHealthy kind).1
  | .recordPublish kind ok => registry.recordPublish kind ok
  | .recordReconnect kind => registry.recordReconnect kind

/-- The registry after some calls. -/
def after (registry : Registry) (calls : List Call) : Registry :=
  Execution.run perform registry calls

theorem disabled_start_iff (other : Kind) :
    ((registry.start other).1.entry kind).state = .disabled ↔
      (registry.entry kind).state = .disabled := by
  unfold start
  split_ifs with hdisabled hstate
  · exact Iff.rfl
  · exact Iff.rfl
  · rw [entry_update]
    split_ifs with hsame
    · subst hsame
      simp [hdisabled]
    · exact Iff.rfl

theorem disabled_markHealthy_iff (other : Kind) :
    ((registry.markHealthy other).1.entry kind).state = .disabled ↔
      (registry.entry kind).state = .disabled := by
  unfold markHealthy
  split_ifs with hstate
  · exact Iff.rfl
  · rw [entry_update]
    split_ifs with hsame
    · subst hsame
      -- the entry was starting or degraded
      have hdisabled : (registry.entry other).state ≠ .disabled := by
        intro hdisabled
        apply hstate
        simp [hdisabled]
      simp [hdisabled]
    · exact Iff.rfl

theorem disabled_recordPublish_iff (other : Kind) (ok : Bool) :
    ((registry.recordPublish other ok).entry kind).state = .disabled ↔
      (registry.entry kind).state = .disabled ∧ (other = kind → ok = true) := by
  unfold recordPublish
  cases ok <;> by_cases hsame : other = kind <;> simp [entry_update, hsame]

theorem disabled_recordReconnect_iff (other : Kind) :
    ((registry.recordReconnect other).entry kind).state = .disabled ↔
      (registry.entry kind).state = .disabled := by
  rw [recordReconnect, entry_update]
  by_cases hsame : other = kind
  · subst hsame
    by_cases hdisabled : (registry.entry other).state = .disabled <;> simp [hdisabled]
  · rw [if_neg hsame]

/-- **What one call does to a disabled entry.** Only a failed publication takes it out of its
state, and no call brings an entry into it. -/
theorem disabled_perform_iff (call : Call) :
    ((registry.perform call).entry kind).state = .disabled ↔
      (registry.entry kind).state = .disabled ∧ call ≠ .recordPublish kind false := by
  cases call with
  | start other => simpa [perform] using disabled_start_iff other
  | markHealthy other => simpa [perform] using disabled_markHealthy_iff other
  | recordPublish other ok =>
      rw [perform, disabled_recordPublish_iff]
      cases ok <;> simp
  | recordReconnect other => simpa [perform] using disabled_recordReconnect_iff other

theorem disabled_after_iff (calls : List Call) :
    ((registry.after calls).entry kind).state = .disabled ↔
      (registry.entry kind).state = .disabled ∧ ∀ call ∈ calls, call ≠ .recordPublish kind false := by
  induction calls generalizing registry with
  | nil => simp [after]
  | cons call rest ih =>
      show (((registry.perform call).after rest).entry kind).state = .disabled ↔ _
      rw [ih, disabled_perform_iff, List.forall_mem_cons, and_assoc]

/-- The entry is disabled and neither `start` nor `markHealthy` succeeds. -/
structure Off (registry : Registry) (kind : Kind) : Prop where
  state : (registry.entry kind).state = .disabled
  start : registry.start kind = (registry, .error .featureDisabled)
  markHealthy : registry.markHealthy kind = (registry, .error .invalidTransition)

theorem off_iff : registry.Off kind ↔ (registry.entry kind).state = .disabled := by
  constructor
  · exact Off.state
  · intro h
    exact ⟨h, by simp [Registry.start, h], by simp [Registry.markHealthy, h]⟩

/-- No failed publication on this kind is recorded. -/
def NoFailure (kind : Kind) (calls : List Call) : Prop :=
  ∀ call ∈ calls, call ≠ .recordPublish kind false

/-- **A disabled transport stays disabled exactly while no failed publication is recorded on
it.** -/
theorem off_after_iff (before : Registry) (kind : Kind) (calls : List Call) :
    (∀ config, ((before.initializeEntries config).entry kind).state = .disabled →
      (((before.initializeEntries config).after calls).Off kind ↔ NoFailure kind calls)) ∧
    ∀ runtime selection opened, before.initializeWithConfig runtime selection = .ok opened →
      (opened.entry kind).state = .disabled →
      ((opened.after calls).Off kind ↔ NoFailure kind calls) := by
  have hany : ∀ opened : Registry, (opened.entry kind).state = .disabled →
      ((opened.after calls).Off kind ↔ NoFailure kind calls) := by
    intro opened hdisabled
    rw [off_iff, disabled_after_iff]
    exact and_iff_right hdisabled
  exact ⟨fun config => hany _, fun runtime selection opened _ => hany opened⟩

/-- The full profile without the selection of `nats`. -/
def onlyHttp : Selection := { settings := [{ kind := .http }, { kind := .nats, enabled := false }] }

theorem off_after_reconnect :
    ((fresh.initializeEntries ⟨.minimal, defaults .minimal⟩).after
        [.recordReconnect .nats, .recordPublish .nats true, .start .nats]).Off .nats ∧
      ∃ opened, fresh.initializeWithConfig ⟨.full, defaults .full⟩ onlyHttp = .ok opened ∧
        (opened.after [.recordReconnect .nats, .recordPublish .nats true, .start .nats]).Off
          .nats := by
  have hquiet : NoFailure .nats
      [.recordReconnect .nats, .recordPublish .nats true, .start .nats] := by
    unfold NoFailure
    decide
  obtain ⟨hfeatures, hselection⟩ := off_after_iff fresh .nats
    [.recordReconnect .nats, .recordPublish .nats true, .start .nats]
  constructor
  · exact (hfeatures ⟨.minimal, defaults .minimal⟩
      ((disabled_initializeEntries_iff _).mpr (by decide))).mpr hquiet
  · have haccepted : (fresh.initializeWithConfig ⟨.full, defaults .full⟩ onlyHttp).isOk = true := by
      decide +kernel
    cases hopened : fresh.initializeWithConfig ⟨.full, defaults .full⟩ onlyHttp with
    | error err =>
        rw [hopened] at haccepted
        cases haccepted
    | ok opened =>
        exact ⟨opened, rfl, (hselection _ _ opened hopened
          ((disabled_initializeWithConfig_iff hopened).mpr (by decide))).mpr hquiet⟩

/-- Two calls bring a transport whose feature is off to `starting`. -/
theorem not_off_after_failedPublish :
    ((fresh.initializeEntries ⟨.minimal, defaults .minimal⟩).entry .nats).state = .disabled ∧
      ¬((fresh.initializeEntries ⟨.minimal, defaults .minimal⟩).after
        [.recordPublish .nats false]).Off .nats ∧
      (((fresh.initializeEntries ⟨.minimal, defaults .minimal⟩).after
        [.recordPublish .nats false, .start .nats]).entry .nats).state = .starting := by
  refine ⟨by decide +kernel, ?_, by decide +kernel⟩
  rw [off_iff]
  decide +kernel

end Registry
end Ubiq.Transports
