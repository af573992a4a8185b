import Ubiq.Config.Features
import Ubiq.Foundation.Json
import Ubiq.Foundation.Text

/-!
# The configuration loaders

`runtime_config.zig`: `loadJson` over the value that `std.json` gives, and the line scanners of
`loadToml` and `loadYaml`, which write what they found as JSON text and hand it to `loadJson`.
The errors are the values that the functions return; running out of memory is left out.
-/

namespace Ubiq.Config

open Foundation
open Foundation.Json (Value Chunk)

inductive ConfigError
  | invalidJson
  | invalidYaml
  | invalidToml
  | unknownConfigKey
  | invalidRoot
  | invalidProfile
  | invalidFeature
  | invalidFeatures
  | unknownOverride
  | invalidOverride
deriving DecidableEq, Repr

structure Override where
  name : Bytes
  value : Bytes
deriving DecidableEq, Repr

/-- `Format`. -/
inductive SourceFormat
  | json
  | yaml
  | toml
deriving DecidableEq, Repr

/-! ## `std.json` -/

/-- The string of a body: half a surrogate pair and invalid UTF-8 are syntax errors. -/
def readString (body : List Chunk) : Option Bytes :=
  (Json.decode none body).filter Utf8.valid

/-- A member whose key and value could be read. -/
def readMember (member : List Chunk × Option (Value Bytes)) : Option (Bytes × Value Bytes) :=
  match readString member.1, member.2 with
  | some key, some value => some (key, value)
  | _, _ => none

/-- A `std.json.Value` is built from the innermost values outwards; a key that stands twice in an
object is the error `DuplicateField`. -/
def dynamicValue : Json.Algebra (List Chunk) (Option (Value Bytes)) where
  null := some .null
  bool b := some (.bool b)
  number text := some (.number text)
  string body := (readString body).map .string
  array items := (items.mapM id).map .array
  object members :=
    match members.mapM readMember with
    | some found => if (found.map Prod.fst).Nodup then some (.object found) else none
    | none => none

/-- `std.json.parseFromSlice(std.json.Value, …)` with the default options. -/
def parseFromSlice (source : Bytes) : Option (Value Bytes) :=
  match Json.parse source with
  | some value => value.fold dynamicValue
  | none => none

def get (object : List (Bytes × Value Bytes)) (key : Bytes) : Option (Value Bytes) :=
  (object.find? fun member => member.1 = key).map Prod.snd

/-! ## `loadJson` -/

/-- The profile of the file, `minimal` when there is none. -/
def fileProfile (object : List (Bytes × Value Bytes)) : Except ConfigError Profile :=
  match get object (ascii "profile") with
  | none => .ok .minimal
  | some (.string text) =>
      match stringToEnum Profile.all Profile.name text with
      | some profile => .ok profile
      | none => .error .invalidProfile
  | some _ => .error .invalidProfile

/-- One item of the feature list. -/
def fileFeature : Value Bytes → Except ConfigError Feature
  | .string text =>
      match stringToEnum Feature.all Feature.name text with
      | some feature => .ok feature
      | none => .error .invalidFeature
  | _ => .error .invalidFeatures

/-- The feature list of the file, if there is one. -/
def fileFeatures (object : List (Bytes × Value Bytes)) : Except ConfigError (Option (List Feature)) :=
  match get object (ascii "enabled") with
  | none => .ok none
  | some (.array items) => (items.mapM fileFeature).map some
  | some _ => .error .invalidFeatures

/-- The overrides that stand last: of the profile and of the features. -/
structure Overrides where
  profile : Option Profile := none
  features : Option Bytes := none
deriving DecidableEq, Repr

/-- The body of the loop over the overrides. -/
def applyOverride (found : Overrides) (override : Override) : Except ConfigError Overrides :=
  if override.name = ascii "UBIQ_PROFILE" then
    match stringToEnum Profile.all Profile.name override.value with
    | some profile => .ok { found with profile := some profile }
    | none => .error .invalidOverride
  else if override.name = ascii "UBIQ_FEATURES" then
    .ok { found with features := some override.value }
  else .error .unknownOverride

/-- The white space around a name of `UBIQ_FEATURES`. -/
def listBlanks : Bytes := [32, 9, 13, 10]

/-- One name of `UBIQ_FEATURES`. -/
def overrideFeature (name : Bytes) : Except ConfigError Feature :=
  match stringToEnum Feature.all Feature.name (Text.trim listBlanks name) with
  | some feature => .ok feature
  | none => .error .invalidOverride

/-- The features of `UBIQ_FEATURES`: first no name may be empty, then every name is looked up. -/
def overrideFeatures (csv : Bytes) : Except ConfigError (List Feature) :=
  if (Text.splitScalar 44 csv).any fun name => (Text.trim listBlanks name).length = 0 then
    .error .invalidOverride
  else (Text.splitScalar 44 csv).mapM overrideFeature

/-- The end of `loadJson`: both checks of the resolved configuration. -/
def checked (loaded : FeatureConfig) : Except ConfigError FeatureConfig :=
  match loaded.validate with
  | .error _ => .error .invalidFeatures
  | .ok _ =>
      match validateGraph loaded defaultEdges with
      | .error _ => .error .invalidFeatures
      | .ok _ => .ok loaded

/-- `loadJson` behind the check of the root. -/
def loadObject (object : List (Bytes × Value Bytes)) (overrides : List Override) :
    Except ConfigError FeatureConfig := do
  let profile ← fileProfile object
  let listed ← fileFeatures object
  let found ← overrides.foldlM applyOverride {}
  let resolved := found.profile.getD profile
  let selected :=
    match found.profile with
    | some value =>
        if listed = none ∧ found.features = none then defaults value
        else listed.getD (defaults profile)
    | none => listed.getD (defaults profile)
  let enabled ←
    match found.features with
    | some csv => overrideFeatures csv
    | none => pure selected
  checked { profile := resolved, enabled := enabled }

def loadJson (source : Bytes) (overrides : List Override) : Except ConfigError FeatureConfig :=
  match parseFromSlice source with
  | none => .error .invalidJson
  | some (.object object) => loadObject object overrides
  | some _ => .error .invalidRoot

/-! ## Lines -/

/-- The white space around a line. -/
def lineBlanks : Bytes := [32, 9, 13]

/-- The white space around a key or a value. -/
def valueBlanks : Bytes := [32, 9]

def trimComment (line : Bytes) (marker : UInt8) : Bytes :=
  line.takeWhile fun c => c ≠ marker

/-- The line as both scanners look at it: without its comment and the white space around it. -/
def content (line : Bytes) : Bytes :=
  Text.trim lineBlanks (trimComment line 35)

/-- The text begins and ends with the byte, which is not the same occurrence. -/
def enclosed (opening closing : UInt8) (value : Bytes) : Bool :=
  2 ≤ value.length && value.head? = some opening && value.getLast? = some closing

/-- The text without its first and its last byte. -/
def inner (value : Bytes) : Bytes :=
  (value.drop 1).dropLast

/-- The bytes that a value without quotes may not have. -/
def reserved : Bytes := ascii " \t\r\n'[]\x7b\x7d:,\""

def unquote (value : Bytes) : Option Bytes :=
  if enclosed 34 34 value || enclosed 39 39 value then some (inner value)
  else if value ≠ [] && value.all fun c => reserved.all fun other => c ≠ other then some value
  else none

/-- The bytes of a feature token. -/
def tokenByte (c : UInt8) : Bool :=
  (97 ≤ c && c ≤ 122) || (48 ≤ c && c ≤ 57) || c = 95

def appendToken (enabled : List Bytes) (token : Bytes) : Except ConfigError (List Bytes) :=
  if token.length = 0 then .error .invalidFeatures
  else if token.all tokenByte then .ok (enabled ++ [token])
  else .error .invalidFeatures

/-- The variables of a line scanner. `loadToml` has no `in_enabled_list`: it stays `false`. -/
structure Scan where
  profile : Option Bytes := none
  enabled : List Bytes := []
  profileSeen : Bool := false
  enabledSeen : Bool := false
  inEnabledList : Bool := false
deriving DecidableEq, Repr

/-- One item of an inline list. -/
def inlineItem (invalid : ConfigError) (enabled : List Bytes) (item : Bytes) :
    Except ConfigError (List Bytes) :=
  match unquote (Text.trim valueBlanks item) with
  | some token => appendToken enabled token
  | none => .error invalid

/-- The items of an inline list. -/
def inlineItems (invalid : ConfigError) (enabled : List Bytes) (value : Bytes) :
    Except ConfigError (List Bytes) :=
  let inside := Text.trim valueBlanks (inner value)
  if inside.length ≠ 0 then (Text.splitScalar 44 inside).foldlM (inlineItem invalid) enabled
  else .ok enabled

/-! ## `loadToml` -/

/-- The body of the loop of `loadToml` for a line that is not blank. -/
def tomlContent (scan : Scan) (trimmed : Bytes) : Except ConfigError Scan :=
  match Format.readUntil 61 trimmed with
  | none => .error .invalidToml
  | some (before, after) =>
      let key := Text.trim valueBlanks before
      let value := Text.trim valueBlanks after
      if key = ascii "profile" then
        if scan.profileSeen then .error .invalidToml
        else
          match unquote value with
          | none => .error .invalidToml
          | some profile =>
              .ok { scan with profile := some profile, profileSeen := true, inEnabledList := false }
      else if key = ascii "enabled" then
        if scan.enabledSeen || !enclosed 91 93 value then .error .invalidToml
        else
          (inlineItems .invalidToml scan.enabled value).map fun enabled =>
            { scan with enabled := enabled, enabledSeen := true, inEnabledList := false }
      else .error .unknownConfigKey

/-- The body of the loop of `loadToml`. -/
def tomlLine (scan : Scan) (line : Bytes) : Except ConfigError Scan :=
  if (content line).length = 0 then .ok scan else tomlContent scan (content line)

/-! ## `loadYaml` -/

/-- The body of the loop of `loadYaml` for a line that is not blank. -/
def yamlContent (scan : Scan) (trimmed : Bytes) : Except ConfigError Scan :=
  if trimmed.head? = some 45 then
    if !scan.inEnabledList || trimmed.length < 2 || trimmed.tail.head? ≠ some 32 then
      .error .invalidYaml
    else
      match unquote (Text.trim valueBlanks (trimmed.drop 2)) with
      | none => .error .invalidYaml
      | some token =>
          (appendToken scan.enabled token).map fun enabled => { scan with enabled := enabled }
  else
    match Format.readUntil 58 trimmed with
    | none => .error .invalidYaml
    | some (before, after) =>
        let key := Text.trim valueBlanks before
        let value := Text.trim valueBlanks after
        if key = ascii "profile" then
          if scan.profileSeen || value.length = 0 then .error .invalidYaml
          else
            match unquote value with
            | none => .error .invalidYaml
            | some profile =>
                .ok { scan with profile := some profile, profileSeen := true, inEnabledList := false }
        else if key = ascii "enabled" then
          if scan.enabledSeen then .error .invalidYaml
          else if value.length = 0 then .ok { scan with enabledSeen := true, inEnabledList := true }
          else if !enclosed 91 93 value then .error .invalidYaml
          else
            (inlineItems .invalidYaml scan.enabled value).map fun enabled =>
              { scan with enabled := enabled, enabledSeen := true, inEnabledList := false }
        else .error .unknownConfigKey

/-- The body of the loop of `loadYaml`. -/
def yamlLine (scan : Scan) (line : Bytes) : Except ConfigError Scan :=
  if (content line).length = 0 then .ok scan else yamlContent scan (content line)

/-! ## Writing JSON again -/

def appendJsonToken (output token : Bytes) : Bytes :=
  output ++ [34] ++ token ++ [34]

/-- The loop of `encodeJson` over the features. -/
def encodeTokens (output : Bytes) : List Bytes → Bytes
  | [] => output
  | [token] => appendJsonToken output token
  | token :: rest => encodeTokens (appendJsonToken output token ++ [44]) rest

def encodeJson (profile : Option Bytes) (enabled : List Bytes) (enabledSeen : Bool) : Bytes :=
  let opened := ascii "\x7b"
  let named :=
    match profile with
    | some name => appendJsonToken (opened ++ ascii "\"profile\":") name
    | none => opened
  let listed :=
    if enabledSeen then
      let separated := if profile.isSome then named ++ [44] else named
      encodeTokens (separated ++ ascii "\"enabled\":[") enabled ++ ascii "]"
    else named
  listed ++ ascii "\x7d"

/-- What both line scanners do behind their loop. -/
def loadScan (scan : Scan) (overrides : List Override) : Except ConfigError FeatureConfig :=
  loadJson (encodeJson scan.profile scan.enabled scan.enabledSeen) overrides

def loadToml (source : Bytes) (overrides : List Override) : Except ConfigError FeatureConfig := do
  let scan ← (Text.splitScalar newline source).foldlM tomlLine {}
  loadScan scan overrides

def loadYaml (source : Bytes) (overrides : List Override) : Except ConfigError FeatureConfig := do
  let scan ← (Text.splitScalar newline source).foldlM yamlLine {}
  loadScan scan overrides

def load (format : SourceFormat) (source : Bytes) (overrides : List Override) :
    Except ConfigError FeatureConfig :=
  match format with
  | .json => loadJson source overrides
  | .yaml => loadYaml source overrides
  | .toml => loadToml source overrides

end Ubiq.Config
