import Ubiq.Config.Precedence
import Ubiq.Config.Reencoding

/-!
# Do the loaders fail closed?

A loaded configuration should be the one the file declares: nothing but `profile` and `enabled`,
each at most once, the profile whose name is the declared value and the features of the declared
list. What a file declares is a parameter here: a reading that the scanner agrees with. The value
of the profile passes through the JSON text without escaping, so that a source with a reading is
loaded as it reads exactly if its profile value has no quote and no backslash.
-/

namespace Ubiq.Config

open Foundation
open Foundation.Json (Value Chunk)

/-- The loaded configuration is the declared one. -/
structure Faithful (declared : List Declaration) (loaded : FeatureConfig) : Prop where
  profileOnce : (profiles declared).length ≤ 1
  enabledOnce : (lists declared).length ≤ 1
  profile : loaded.profile.name = (profiles declared).head?.getD Profile.minimal.name
  enabled : loaded.enabled.map Feature.name =
    (lists declared).head?.getD ((defaults loaded.profile).map Feature.name)

/-- The source declares nothing but the loaded configuration. -/
def FailsClosed (reads : List Declaration → Bytes → Prop) (source : Bytes)
    (loaded : FeatureConfig) : Prop :=
  ∃ declared, reads declared source ∧ Faithful declared loaded

/-- The source can be read, and no declared profile value has a quote or a backslash. -/
def CleanSource (reads : List Declaration → Bytes → Prop) (source : Bytes) : Prop :=
  ∃ declared, reads declared source ∧ ∀ value ∈ profiles declared, 34 ∉ value ∧ 92 ∉ value

/-! ## The object -/

theorem get_profile (profile : Option Bytes) (enabled : Option (List Bytes)) :
    get (declaredObject profile enabled) (ascii "profile") = profile.map .string := by
  have hne : ascii "enabled" ≠ ascii "profile" := by decide +kernel
  cases profile <;> cases enabled <;> simp [get, declaredObject, hne]

theorem get_enabled (profile : Option Bytes) (enabled : Option (List Bytes)) :
    get (declaredObject profile enabled) (ascii "enabled") =
      enabled.map fun tokens => .array (tokens.map .string) := by
  have hne : ascii "profile" ≠ ascii "enabled" := by decide +kernel
  cases profile <;> cases enabled <;> simp [get, declaredObject, hne]

variable {loaded : FeatureConfig} {declared : List Declaration} {final : Scan}

/-- Without overrides the object is loaded as it is. -/
theorem loadObject_declared {profile : Option Bytes} {enabled : Option (List Bytes)}
    (h : loadObject (declaredObject profile enabled) [] = .ok loaded) :
    loaded.profile.name = profile.getD Profile.minimal.name ∧
      loaded.enabled.map Feature.name =
        enabled.getD ((defaults loaded.profile).map Feature.name) := by
  obtain ⟨-, -, hresolved⟩ := loadObject_eq_ok_iff.mp h
  constructor
  · have hprofile := hresolved.profile
    rw [ProfileInEffect, get_profile] at hprofile
    cases profile with
    | none => exact congrArg Profile.name hprofile
    | some name => exact (Value.string.inj hprofile).symm
  · have hfeatures := hresolved.features
    rw [FeaturesInEffect, get_enabled] at hfeatures
    cases enabled with
    | none => exact congrArg (List.map Feature.name) hfeatures
    | some tokens =>
        have hnames : tokens.map Value.string = (loaded.enabled.map Feature.name).map .string := by
          rw [List.map_map]
          exact Value.array.inj hfeatures
        exact (List.map_injective_iff.mpr (fun _ _ => Value.string.inj) hnames).symm

/-! ## The loaders -/

theorem Extends.listed_eq (h : Extends {} [] declared final) :
    final.listed = (lists declared).head? := by
  have honce : (lists declared).length ≤ 1 := by simpa using h.enabledOnce
  have hlist := h.enabled
  have hseen := h.enabledSeen
  match hall : lists declared, honce with
  | [], _ => simp [Scan.listed, hseen, hall]
  | [items], _ => simp [Scan.listed, hseen, hlist, hall]

theorem Extends.profile_eq (h : Extends {} [] declared final) :
    final.profile = (profiles declared).head? := by
  simpa using h.profile

theorem Extends.enabled_tokens (h : Extends {} [] declared final) :
    ∀ token ∈ final.enabled, isToken token = true := by
  intro token hmem
  rw [h.enabled] at hmem
  obtain ⟨listed, hlisted, htoken⟩ := List.mem_flatten.mp (by simpa using hmem)
  exact h.tokens listed hlisted token htoken

/-- A name of a profile has neither quote nor backslash. -/
theorem Profile.name_clean (profile : Profile) : 34 ∉ profile.name ∧ 92 ∉ profile.name := by
  cases profile <;> decide +kernel

/-- A faithful load of a source with at most one profile declares a name. -/
theorem Faithful.clean (h : Faithful declared loaded) :
    ∀ value ∈ profiles declared, 34 ∉ value ∧ 92 ∉ value := by
  intro value hmem
  have honce := h.profileOnce
  match hall : profiles declared, honce with
  | [], _ => simp [hall] at hmem
  | [name], _ =>
      obtain rfl : value = name := by simpa [hall] using hmem
      have hname := h.profile
      rw [hall, List.head?_cons, Option.getD_some] at hname
      exact hname ▸ loaded.profile.name_clean

theorem Scanner.failsClosed_iff (scanner : Scanner) {source : Bytes}
    {reads : List Declaration → Bytes → Prop}
    (hreads : ∀ declared, reads declared source → declarations scanner.part source = some declared)
    (h : (scanner.scan source >>= fun scan => loadScan scan []) = .ok loaded) :
    FailsClosed reads source loaded ↔ CleanSource reads source := by
  obtain ⟨final, hscan, hload⟩ := Fallible.bind_eq_ok.mp h
  obtain ⟨found, hfound, hext⟩ := scanner.declared_of_scan hscan
  constructor
  · rintro ⟨declared, hread, hfaithful⟩
    exact ⟨declared, hread, hfaithful.clean⟩
  · rintro ⟨declared, hread, hclean⟩
    obtain rfl := Option.some.inj (hfound.symm.trans (hreads declared hread))
    have hprofile : CleanProfile final.profile := by
      intro name hname
      rw [hext.profile_eq] at hname
      exact hclean name (List.mem_of_mem_head? hname)
    rw [loadScan, loadJson] at hload
    split at hload
    · cases hload
    · rename_i object hparse
      have hobject := object_of_parseFromSlice hprofile hext.enabled_tokens hparse
      injection hobject with hmembers
      rw [hmembers, hext.profile_eq, hext.listed_eq] at hload
      obtain ⟨hname, hlist⟩ := loadObject_declared hload
      exact ⟨found, hread, ⟨by simpa using hext.profileOnce, by simpa using hext.enabledOnce,
        hname, hlist⟩⟩
    · cases hload

end Ubiq.Config
