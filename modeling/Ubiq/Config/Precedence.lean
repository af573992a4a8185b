import Ubiq.Config.DependencyGraph
import Ubiq.Config.Loader
import Ubiq.Foundation.Fallible

/-!
# Which source decides

A configuration has three sources: the overrides of the host, the file, and the defaults of the
profile. `Resolved` says which of them decides about the profile and about the features, in terms
of names only: the last override of a name, then the file, then the default.

`loadJson_eq_ok_iff` is the specification of `loadJson`: it returns a configuration exactly if the
file and every override can be read, even those that are replaced, and the configuration is the
resolved one.
-/

namespace Ubiq.Config

open Foundation
open Foundation.Json (Value)

/-- The value of the last override of a name. -/
def lastValue (name : Bytes) (overrides : List Override) : Option Bytes :=
  (overrides.filter fun override => override.name = name).getLast?.map Override.value

/-- The profile that is in effect: of the last override, else of the file, else `minimal`. -/
def ProfileInEffect (object : List (Bytes × Value Bytes)) (overrides : List Override)
    (profile : Profile) : Prop :=
  match lastValue (ascii "UBIQ_PROFILE") overrides with
  | some text => text = profile.name
  | none =>
      match get object (ascii "profile") with
      | some value => value = .string profile.name
      | none => profile = .minimal

/-- The features that are in effect: of the last override, else of the file, else the defaults of
the profile; in the order in which they are listed there. -/
def FeaturesInEffect (object : List (Bytes × Value Bytes)) (overrides : List Override)
    (loaded : FeatureConfig) : Prop :=
  match lastValue (ascii "UBIQ_FEATURES") overrides with
  | some csv => (Text.splitScalar 44 csv).map (Text.trim listBlanks) = loaded.enabled.map Feature.name
  | none =>
      match get object (ascii "enabled") with
      | some value => value = .array (loaded.enabled.map fun feature => .string feature.name)
      | none => loaded.enabled = defaults loaded.profile

/-- The configuration is the one that its sources decide, without duplicates and with everything
that its features need. -/
structure Resolved (object : List (Bytes × Value Bytes)) (overrides : List Override)
    (loaded : FeatureConfig) : Prop where
  profile : ProfileInEffect object overrides loaded.profile
  features : FeaturesInEffect object overrides loaded
  distinct : loaded.enabled.Nodup
  dependencies : ∀ feature, loaded.isEnabled feature = true → loaded.dependenciesMet feature = true
  edges : ∀ edge ∈ defaultEdges, edge.relation = .required →
    loaded.isEnabled edge.source = true → loaded.isEnabled edge.target = true

/-- An override that can be read by itself. -/
def Override.Readable (override : Override) : Prop :=
  (override.name = ascii "UBIQ_PROFILE" ∧ ∃ profile : Profile, override.value = profile.name) ∨
    override.name = ascii "UBIQ_FEATURES"

/-- A file whose profile and feature list can be read, if it has them. -/
structure ReadableFile (object : List (Bytes × Value Bytes)) : Prop where
  profile : ∀ value, get object (ascii "profile") = some value →
    ∃ profile : Profile, value = .string profile.name
  features : ∀ value, get object (ascii "enabled") = some value →
    ∃ features : List Feature, value = .array (features.map fun feature => .string feature.name)

/-- The overrides that are refused whatever the source: one has an unknown name, one names no
profile, or the list of features in effect has an empty or an unknown name. -/
def Refused (overrides : List Override) : Prop :=
  (∃ override ∈ overrides,
      override.name ≠ ascii "UBIQ_PROFILE" ∧ override.name ≠ ascii "UBIQ_FEATURES") ∨
    (∃ override ∈ overrides, override.name = ascii "UBIQ_PROFILE" ∧
      ∀ profile : Profile, override.value ≠ profile.name) ∨
    ∃ csv, lastValue (ascii "UBIQ_FEATURES") overrides = some csv ∧
      ∃ name ∈ Text.splitScalar 44 csv, Text.trim listBlanks name = [] ∨
        ∀ feature : Feature, Text.trim listBlanks name ≠ feature.name

/-! ## Names -/

theorem Profile.mem_all (profile : Profile) : profile ∈ Profile.all := by
  cases profile <;> decide

theorem Profile.nodup_names : (Profile.all.map Profile.name).Nodup := by
  decide +kernel

theorem Profile.name_injective : Function.Injective Profile.name := fun first second h =>
  List.inj_on_of_nodup_map nodup_names first.mem_all second.mem_all h

theorem Profile.stringToEnum_iff {text : Bytes} {profile : Profile} :
    stringToEnum Profile.all Profile.name text = some profile ↔ text = profile.name :=
  stringToEnum_eq_some_iff mem_all nodup_names

theorem Feature.nodup_names : (Feature.all.map Feature.name).Nodup := by
  decide +kernel

theorem Feature.name_injective : Function.Injective Feature.name := fun first second h =>
  List.inj_on_of_nodup_map nodup_names first.mem_all second.mem_all h

theorem Feature.stringToEnum_iff {text : Bytes} {feature : Feature} :
    stringToEnum Feature.all Feature.name text = some feature ↔ text = feature.name :=
  stringToEnum_eq_some_iff mem_all nodup_names

theorem Feature.name_ne_nil (feature : Feature) : feature.name ≠ [] := by
  cases feature <;> decide +kernel

/-! ## The file -/

variable {object : List (Bytes × Value Bytes)}

/-- What `fileProfile` makes of the object. -/
theorem fileProfile_eq_ok_iff {profile : Profile} :
    fileProfile object = .ok profile ↔
      (get object (ascii "profile")).elim (profile = .minimal) fun value =>
        value = .string profile.name := by
  unfold fileProfile
  cases get object (ascii "profile") with
  | none => simp [eq_comm]
  | some value =>
      cases value with
      | string text =>
          rw [Option.elim_some, Value.string.injEq, ← Profile.stringToEnum_iff]
          dsimp only
          cases stringToEnum Profile.all Profile.name text <;> simp
      | _ => simp

theorem fileFeature_eq_ok_iff (item : Value Bytes) (feature : Feature) :
    fileFeature item = .ok feature ↔ id item = Value.string feature.name := by
  cases item with
  | string text =>
      rw [id, Value.string.injEq, ← Feature.stringToEnum_iff, fileFeature]
      cases stringToEnum Feature.all Feature.name text <;> simp
  | _ => simp [fileFeature]

/-- What `fileFeatures` makes of the object. -/
theorem fileFeatures_eq_ok_iff {listed : Option (List Feature)} :
    fileFeatures object = .ok listed ↔
      (get object (ascii "enabled")).elim (listed = none) fun value =>
        ∃ features, listed = some features ∧
          value = .array (features.map fun feature => .string feature.name) := by
  unfold fileFeatures
  cases get object (ascii "enabled") with
  | none => simp [eq_comm]
  | some value =>
      cases value with
      | array items =>
          simp only [Fallible.map_eq_ok, Fallible.mapM_eq_ok_iff_map fileFeature_eq_ok_iff,
            List.map_id, Option.elim_some, Value.array.injEq]
          exact exists_congr fun features => and_comm.trans (and_congr_left' eq_comm)
      | _ => simp

/-! ## The overrides -/

theorem lastValue_concat (name : Bytes) (overrides : List Override) (override : Override) :
    lastValue name (overrides ++ [override]) =
      if override.name = name then some override.value else lastValue name overrides := by
  unfold lastValue
  split
  · next hname => simp [hname]
  · next hname => simp [hname]

/-- One override. -/
theorem applyOverride_eq_ok_iff {found next : Overrides} {override : Override} :
    applyOverride found override = .ok next ↔
      (override.name = ascii "UBIQ_PROFILE" ∧ ∃ profile : Profile, override.value = profile.name ∧
        next = { found with profile := some profile }) ∨
      override.name = ascii "UBIQ_FEATURES" ∧
        next = { found with features := some override.value } := by
  have hne : ascii "UBIQ_PROFILE" ≠ ascii "UBIQ_FEATURES" := by decide +kernel
  unfold applyOverride
  split
  · next hname =>
      simp only [hname, true_and, hne, false_and, or_false, ← Profile.stringToEnum_iff]
      cases stringToEnum Profile.all Profile.name override.value <;> simp [eq_comm]
  · next hname =>
      split
      · next hfeatures => simp [hfeatures, hne.symm, eq_comm]
      · next hfeatures => simp [hname, hfeatures]

/-- What the loop has collected: the last override of each name. -/
structure Collected (overrides : List Override) (found : Overrides) : Prop where
  profile : lastValue (ascii "UBIQ_PROFILE") overrides = found.profile.map Profile.name
  features : lastValue (ascii "UBIQ_FEATURES") overrides = found.features

/-- The step of the loop, for what it has collected. -/
theorem Collected.apply {overrides : List Override} {override : Override} {found next : Overrides}
    (h : Collected overrides found) (hstep : applyOverride found override = .ok next) :
    override.Readable ∧ Collected (overrides ++ [override]) next := by
  have hne : ascii "UBIQ_PROFILE" ≠ ascii "UBIQ_FEATURES" := by decide +kernel
  rcases applyOverride_eq_ok_iff.mp hstep with ⟨hname, profile, hvalue, rfl⟩ | ⟨hname, rfl⟩
  · refine ⟨Or.inl ⟨hname, profile, hvalue⟩, ?_, ?_⟩
    · rw [lastValue_concat, if_pos hname, hvalue, Option.map_some]
    · rw [lastValue_concat, if_neg (hname ▸ hne)]
      exact h.features
  · refine ⟨Or.inr hname, ?_, ?_⟩
    · rw [lastValue_concat, if_neg (hname ▸ hne.symm)]
      exact h.profile
    · rw [lastValue_concat, if_pos hname]

/-- **The loop over the overrides** reads each of them and keeps the last of each name. -/
theorem collected_of_foldlM {overrides : List Override} {found : Overrides}
    (h : overrides.foldlM applyOverride {} = .ok found) :
    (∀ override ∈ overrides, override.Readable) ∧ Collected overrides found := by
  induction overrides using List.reverseRecOn generalizing found with
  | nil =>
      cases h
      exact ⟨by simp, rfl, rfl⟩
  | append_singleton overrides override ih =>
      rw [List.foldlM_append, Fallible.bind_eq_ok] at h
      obtain ⟨before, hbefore, hstep⟩ := h
      obtain ⟨hreadable, hcollected⟩ := ih hbefore
      rw [List.foldlM_cons, Fallible.bind_eq_ok] at hstep
      obtain ⟨next, hnext, hlast⟩ := hstep
      cases hlast
      obtain ⟨hlast, hall⟩ := hcollected.apply hnext
      exact ⟨List.forall_mem_append.mpr ⟨hreadable, List.forall_mem_singleton.mpr hlast⟩, hall⟩

/-- Overrides that can be read are collected, whatever was found before. -/
theorem exists_foldlM_of_readable {overrides : List Override} (found : Overrides)
    (h : ∀ override ∈ overrides, override.Readable) :
    ∃ final, overrides.foldlM applyOverride found = .ok final := by
  induction overrides generalizing found with
  | nil => exact ⟨found, rfl⟩
  | cons override overrides ih =>
      obtain ⟨hfirst, hrest⟩ := List.forall_mem_cons.mp h
      have hstep : ∃ next, applyOverride found override = .ok next := by
        rcases hfirst with ⟨hname, profile, hvalue⟩ | hname
        · exact ⟨_, applyOverride_eq_ok_iff.mpr (Or.inl ⟨hname, profile, hvalue, rfl⟩)⟩
        · exact ⟨_, applyOverride_eq_ok_iff.mpr (Or.inr ⟨hname, rfl⟩)⟩
      obtain ⟨next, hnext⟩ := hstep
      obtain ⟨final, hfinal⟩ := ih next hrest
      exact ⟨final, by rw [List.foldlM_cons, hnext]; exact hfinal⟩

theorem overrideFeature_eq_ok_iff (name : Bytes) (feature : Feature) :
    overrideFeature name = .ok feature ↔ Text.trim listBlanks name = feature.name := by
  rw [← Feature.stringToEnum_iff, overrideFeature]
  cases stringToEnum Feature.all Feature.name (Text.trim listBlanks name) <;> simp

/-- The first pass over the list refuses nothing that the second one would take. -/
theorem overrideFeatures_eq_ok_iff {csv : Bytes} {features : List Feature} :
    overrideFeatures csv = .ok features ↔
      (Text.splitScalar 44 csv).map (Text.trim listBlanks) = features.map Feature.name := by
  unfold overrideFeatures
  split
  · next hempty =>
      obtain ⟨name, hname, hblank⟩ := List.any_eq_true.mp hempty
      have hnil : Text.trim listBlanks name = [] := by simpa using hblank
      refine iff_of_false (by simp) fun h => ?_
      have hmem : ([] : Bytes) ∈ features.map Feature.name := by
        rw [← h, ← hnil]
        exact List.mem_map_of_mem hname
      obtain ⟨feature, -, hfeature⟩ := List.mem_map.mp hmem
      exact absurd hfeature feature.name_ne_nil
  · exact Fallible.mapM_eq_ok_iff_map overrideFeature_eq_ok_iff

/-! ## The checks -/

/-- The default edges have no cycle and no conflict. -/
theorem validateGraph_defaultEdges_eq_ok_iff {config : FeatureConfig} :
    validateGraph config defaultEdges = .ok () ↔
      ∀ edge ∈ defaultEdges, edge.relation = .required → config.isEnabled edge.source = true →
        config.isEnabled edge.target = true := by
  have hacyclic : detectCycles defaultEdges = .ok () := by decide +kernel
  have hrequired : ∀ edge ∈ defaultEdges, edge.relation ≠ .conflicts := by decide
  have hconflicts : ∀ edge ∈ defaultEdges, edge.relation = .conflicts →
      ¬(config.isEnabled edge.source = true ∧ config.isEnabled edge.target = true) :=
    fun edge hedge hrelation => absurd hrelation (hrequired edge hedge)
  refine Iff.trans ?_ (and_iff_left hconflicts)
  rw [← checkEdges_eq_ok_iff, validateGraph]
  cases checkEdges config defaultEdges <;> simp [hacyclic]

theorem checked_eq_ok_iff {config loaded : FeatureConfig} :
    checked config = .ok loaded ↔
      config = loaded ∧ loaded.enabled.Nodup ∧
        (∀ feature, loaded.isEnabled feature = true → loaded.dependenciesMet feature = true) ∧
        ∀ edge ∈ defaultEdges, edge.relation = .required → loaded.isEnabled edge.source = true →
          loaded.isEnabled edge.target = true := by
  rw [← validateGraph_defaultEdges_eq_ok_iff, ← and_assoc (a := loaded.enabled.Nodup),
    ← FeatureConfig.validate_eq_ok_iff, checked]
  cases hvalid : config.validate with
  | error err =>
      refine iff_of_false (by simp) ?_
      rintro ⟨rfl, hok, -⟩
      simp [hvalid] at hok
  | ok valid =>
      cases hgraph : validateGraph config defaultEdges with
      | error err =>
          refine iff_of_false (by simp) ?_
          rintro ⟨rfl, -, hok⟩
          simp [hgraph] at hok
      | ok checked =>
          refine ⟨fun h => ?_, fun h => congrArg Except.ok h.1⟩
          obtain rfl := Except.ok.inj h
          exact ⟨rfl, hvalid, hgraph⟩

/-! ## The loader -/

/-- The order of the assignments of `loadJson` plays no role: without an override of the features
they are those of the file, else the defaults of the profile that is in effect. -/
theorem loadObject_eq (object : List (Bytes × Value Bytes)) (overrides : List Override) :
    loadObject object overrides = (do
      let profile ← fileProfile object
      let listed ← fileFeatures object
      let found ← overrides.foldlM applyOverride {}
      let resolved := found.profile.getD profile
      let enabled ← found.features.elim (pure (listed.getD (defaults resolved))) overrideFeatures
      checked { profile := resolved, enabled := enabled }) := by
  unfold loadObject
  congr
  funext profile
  congr
  funext listed
  congr
  funext found
  rcases found with ⟨_ | value, _ | csv⟩ <;> cases listed <;> rfl

theorem ReadableFile.iff_ok :
    ReadableFile object ↔
      (∃ profile, fileProfile object = .ok profile) ∧ ∃ listed, fileFeatures object = .ok listed := by
  simp only [fileProfile_eq_ok_iff, fileFeatures_eq_ok_iff]
  constructor
  · rintro ⟨hprofile, hfeatures⟩
    constructor
    · cases hget : get object (ascii "profile") with
      | none => exact ⟨.minimal, rfl⟩
      | some value => exact hprofile value hget
    · cases hget : get object (ascii "enabled") with
      | none => exact ⟨none, rfl⟩
      | some value =>
          obtain ⟨features, hvalue⟩ := hfeatures value hget
          exact ⟨some features, features, rfl, hvalue⟩
  · rintro ⟨⟨profile, hprofile⟩, listed, hlisted⟩
    constructor
    · intro value hget
      rw [hget] at hprofile
      exact ⟨profile, hprofile⟩
    · intro value hget
      rw [hget] at hlisted
      obtain ⟨features, -, hvalue⟩ := hlisted
      exact ⟨features, hvalue⟩

section InEffect

variable {overrides : List Override} {found : Overrides} {loaded : FeatureConfig}

/-- The profile that `loadJson` takes is the one in effect. -/
theorem Collected.profileInEffect_iff (h : Collected overrides found) {fromFile profile : Profile}
    (hfile : fileProfile object = .ok fromFile) :
    ProfileInEffect object overrides profile ↔ found.profile.getD fromFile = profile := by
  rw [ProfileInEffect, h.profile]
  cases found.profile with
  | some value => exact Profile.name_injective.eq_iff
  | none =>
      have hspec : fileProfile object = .ok profile ↔ _ := fileProfile_eq_ok_iff
      rw [hfile, Except.ok.injEq] at hspec
      cases hget : get object (ascii "profile") with
      | none =>
          rw [hget] at hspec
          exact hspec.symm
      | some value =>
          rw [hget] at hspec
          exact hspec.symm

/-- The features that `loadJson` takes are the ones in effect. -/
theorem Collected.featuresInEffect_iff (h : Collected overrides found) {loaded : FeatureConfig}
    {listed : Option (List Feature)} (hlisted : fileFeatures object = .ok listed) :
    FeaturesInEffect object overrides loaded ↔
      found.features.elim (pure (listed.getD (defaults loaded.profile))) overrideFeatures =
        .ok loaded.enabled := by
  rw [FeaturesInEffect, h.features]
  cases found.features with
  | some csv => exact overrideFeatures_eq_ok_iff.symm
  | none =>
      rw [fileFeatures_eq_ok_iff] at hlisted
      cases hget : get object (ascii "enabled") with
      | none =>
          rw [hget] at hlisted
          obtain rfl : listed = none := hlisted
          simp [pure, Except.pure, eq_comm]
      | some value =>
          rw [hget] at hlisted
          obtain ⟨features, rfl, rfl⟩ := hlisted
          have hnames : Function.Injective fun feature : Feature =>
              (Value.string feature.name : Value Bytes) := fun first second heq =>
            Feature.name_injective (Value.string.inj heq)
          simp [pure, Except.pure, (List.map_injective_iff.mpr hnames).eq_iff]

/-- **What `loadJson` makes of an object.** -/
theorem loadObject_eq_ok_iff :
    loadObject object overrides = .ok loaded ↔
      ReadableFile object ∧ (∀ override ∈ overrides, override.Readable) ∧
        Resolved object overrides loaded := by
  rw [loadObject_eq]
  simp only [Fallible.bind_eq_ok, checked_eq_ok_iff]
  constructor
  · rintro ⟨profile, hprofile, listed, hlisted, found, hfound, enabled, henabled, rfl, hdistinct,
      hdependencies, hedges⟩
    obtain ⟨hreadable, hcollected⟩ := collected_of_foldlM hfound
    refine ⟨ReadableFile.iff_ok.mpr ⟨⟨profile, hprofile⟩, listed, hlisted⟩, hreadable, ?_⟩
    exact ⟨(hcollected.profileInEffect_iff hprofile).mpr rfl,
      (hcollected.featuresInEffect_iff hlisted).mpr henabled, hdistinct, hdependencies, hedges⟩
  · rintro ⟨hfile, hreadable, hresolved⟩
    obtain ⟨⟨profile, hprofile⟩, listed, hlisted⟩ := ReadableFile.iff_ok.mp hfile
    obtain ⟨found, hfound⟩ := exists_foldlM_of_readable {} hreadable
    obtain ⟨-, hcollected⟩ := collected_of_foldlM hfound
    have hselected := (hcollected.profileInEffect_iff hprofile).mp hresolved.profile
    have henabled := (hcollected.featuresInEffect_iff hlisted).mp hresolved.features
    refine ⟨profile, hprofile, listed, hlisted, found, hfound, loaded.enabled, ?_, ?_,
      hresolved.distinct, hresolved.dependencies, hresolved.edges⟩
    · rw [hselected]
      exact henabled
    · rw [hselected]

/-- **What `loadJson` returns.** -/
theorem loadJson_eq_ok_iff {source : Bytes} :
    loadJson source overrides = .ok loaded ↔
      ∃ object, parseFromSlice source = some (.object object) ∧ ReadableFile object ∧
        (∀ override ∈ overrides, override.Readable) ∧ Resolved object overrides loaded := by
  simp only [← loadObject_eq_ok_iff]
  unfold loadJson
  cases parseFromSlice source with
  | none => simp
  | some value => cases value <;> simp

theorem Refused.not_ok {source : Bytes} (h : Refused overrides) :
    loadJson source overrides ≠ .ok loaded := by
  intro hload
  obtain ⟨object, -, -, hreadable, hresolved⟩ := loadJson_eq_ok_iff.mp hload
  rcases h with ⟨override, hmem, hprofile, hfeatures⟩ | ⟨override, hmem, hname, hvalue⟩ |
    ⟨csv, hlast, name, hmem, hname⟩
  · rcases hreadable override hmem with ⟨hname, -⟩ | hname
    · exact hprofile hname
    · exact hfeatures hname
  · rcases hreadable override hmem with ⟨-, profile, hprofile⟩ | hfeatures
    · exact hvalue profile hprofile
    · exact absurd (hname.symm.trans hfeatures) (by decide +kernel)
  · have hlist := hresolved.features
    rw [FeaturesInEffect, hlast] at hlist
    obtain ⟨feature, -, hfeature⟩ := List.mem_map.mp (hlist ▸ List.mem_map_of_mem hmem)
    rcases hname with hempty | hunknown
    · exact feature.name_ne_nil (hfeature.trans hempty)
    · exact hunknown feature hfeature.symm

end InEffect

/-- **Precedence.** A configuration that `loadJson` returns is the one that the overrides, the file
and the defaults decide, in this order, without duplicates and closed under the dependencies of
`validate` and of `default_edges`. Overrides that name nothing known are refused with every
source. -/
theorem loadJson_precedence (source : Bytes) (overrides : List Override) :
    (∀ loaded, loadJson source overrides = .ok loaded →
      ∃ object, parseFromSlice source = some (.object object) ∧
        Resolved object overrides loaded) ∧
      (Refused overrides → ∃ err, loadJson source overrides = .error err) := by
  constructor
  · intro loaded hload
    obtain ⟨object, hparse, -, -, hresolved⟩ := loadJson_eq_ok_iff.mp hload
    exact ⟨object, hparse, hresolved⟩
  · intro hrefused
    cases hload : loadJson source overrides with
    | error err => exact ⟨err, rfl⟩
    | ok loaded => exact absurd hload hrefused.not_ok

/-- The profile of the last override, and its defaults since neither list is given. -/
example : loadJson (ascii "\x7b\"profile\":\"full\"\x7d")
    [⟨ascii "UBIQ_PROFILE", ascii "minimal"⟩, ⟨ascii "UBIQ_PROFILE", ascii "secure"⟩] =
      .ok ⟨.secure, [.ubiq, .supervisor, .crypto, .mtls, .replayGuard]⟩ := by
  decide +kernel

end Ubiq.Config
