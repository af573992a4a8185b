import Ubiq.Config.Formats

/-!
# The documented files

`TomlFile` and `YamlFile` say what a file of the documented subsets declares. They are written
down without the scanners: a key of YAML starts its line and has a blank behind its colon, the
items of a block list stand at one indentation, a comment starts a line or follows a blank, a text
in quotes has no escapes, and a carriage return stands only at the end of a line. The scanners
drop indentation and everything behind a `#`, and so accept more than that. On a documented file
they find what it declares (`declarations_of_tomlFile`, `declarations_of_yamlFile`), and a
loader that succeeds fails closed exactly for the clean ones.
-/

namespace Ubiq.Config

open Foundation

/-- Bytes that may stand in a comment or in quotes: no control characters but the tab. -/
def Printable (text : Bytes) : Prop := ∀ c ∈ text, c = 9 ∨ (32 ≤ c ∧ c ≠ 127)

/-- A profile value: a bare word, or a text in quotes that needs no escapes. -/
inductive Quoted (word : Bytes) : Bytes → Prop
  | bare : isToken word = true → Quoted word word
  | double : Printable word → 34 ∉ word → 92 ∉ word → 35 ∉ word → Quoted word (34 :: (word ++ [34]))
  | single : Printable word → 39 ∉ word → 35 ∉ word → Quoted word (39 :: (word ++ [39]))

/-- What may follow the content of a line. A comment without a blank in front of it starts the line
or stands behind one of the closing bytes. -/
inductive RowEnd (closing text : Bytes) : Bytes → Prop
  | pad {pad : Bytes} : Blank pad → RowEnd closing text pad
  | comment {pad body : Bytes} : Blank pad → Printable body →
      (pad = [] → ∀ c ∈ text.getLast?, c ∈ closing) → RowEnd closing text (pad ++ 35 :: body)

/-- A line with the given indentation and content, up to a carriage return. -/
def Row (closing indent text line : Bytes) : Prop :=
  ∃ tail, RowEnd closing text tail ∧
    (line = indent ++ text ++ tail ∨ line = indent ++ text ++ (tail ++ [13]))

/-- In TOML a comment may follow a quote or a bracket. -/
def tomlClosing : Bytes := [34, 39, 93]

/-- An entry of a TOML file. -/
inductive TomlEntry : Declaration → List Bytes → Prop
  | profile {indent name value text line : Bytes} :
      Blank indent → Quoted name value → Keyed (ascii "profile") 61 value text →
        Row tomlClosing indent text line → TomlEntry (.profile name) [line]
  | enabled {words : List Bytes} {indent value text line : Bytes} :
      Blank indent → (∀ word ∈ words, isToken word = true) → Inline words value →
        Keyed (ascii "enabled") 61 value text → Row tomlClosing indent text line →
          TomlEntry (.enabled words) [line]

/-- A key of YAML and its value, with a blank behind the colon. -/
def Mapping (key value text : Bytes) : Prop :=
  ∃ before blank after, Blank before ∧ Blank (blank :: after) ∧
    text = key ++ before ++ 58 :: (blank :: after ++ value)

/-- The rows of a block list at one indentation. -/
inductive Block (indent : Bytes) : List Bytes → List Bytes → Prop
  | nil : Block indent [] []
  | blank {line : Bytes} {items rows : List Bytes} :
      Row [] [] [] line → Block indent items rows → Block indent items (line :: rows)
  | item {word value pad line : Bytes} {items rows : List Bytes} :
      isToken word = true → Scalar word value → Blank pad →
        Row [] indent (45 :: 32 :: (pad ++ value)) line → Block indent items rows →
          Block indent (word :: items) (line :: rows)

/-- An entry of a YAML file. -/
inductive YamlEntry : Declaration → List Bytes → Prop
  | profile {name value text line : Bytes} :
      Quoted name value → Mapping (ascii "profile") value text → Row [] [] text line →
        YamlEntry (.profile name) [line]
  | inline {words : List Bytes} {value text line : Bytes} :
      (∀ word ∈ words, isToken word = true) → Inline words value →
        Mapping (ascii "enabled") value text → Row [] [] text line →
          YamlEntry (.enabled words) [line]
  -- a key without a value and without items would be null
  | block {pad indent line : Bytes} {items rows : List Bytes} :
      Blank pad → Row [] [] (ascii "enabled" ++ pad ++ [58]) line → (∀ c ∈ indent, c = 32) →
        Block indent items rows → items ≠ [] → YamlEntry (.enabled items) (line :: rows)

/-- The lines of a file: entries, and blank lines between them. -/
inductive Entries (entry : Declaration → List Bytes → Prop) : List Declaration → List Bytes → Prop
  | nil : Entries entry [] []
  | blank {line : Bytes} {declared : List Declaration} {lines : List Bytes} :
      Row [] [] [] line → Entries entry declared lines → Entries entry declared (line :: lines)
  | entry {declaration : Declaration} {declared : List Declaration} {rows lines : List Bytes} :
      entry declaration rows → Entries entry declared lines →
        Entries entry (declaration :: declared) (rows ++ lines)

/-- The source is a documented TOML file with these declarations. -/
def TomlFile (declared : List Declaration) (source : Bytes) : Prop :=
  Entries TomlEntry declared (Text.splitScalar newline source)

/-- The source is a documented YAML file with these declarations. -/
def YamlFile (declared : List Declaration) (source : Bytes) : Prop :=
  Entries YamlEntry declared (Text.splitScalar newline source)

/-! ## The scanners on documented files -/

section Scanners

variable {closing indent word text line key value : Bytes} {items rows lines : List Bytes}
  {declared : List Declaration} {source : Bytes}

theorem Quoted.readable (h : Quoted word text) : Readable text := by
  cases h with
  | bare hword => exact Scalar.bare.readable hword
  | double _ _ _ hhash => exact readable_enclosed (by decide) (by decide) hhash
  | single _ _ hhash => exact readable_enclosed (by decide) (by decide) hhash

theorem Quoted.unquote (h : Quoted word text) : unquote text = some word := by
  cases h with
  | bare hword => exact Scalar.bare.unquote hword
  | double => simp [Config.unquote, enclosed_cons]
  | single => simp [Config.unquote, enclosed_cons]

theorem Row.isLine (h : Row closing indent text line) (hindent : Blank indent) : Line text line := by
  obtain ⟨tail, htail, hline⟩ := h
  cases htail with
  | pad hpad =>
      rcases hline with rfl | rfl
      · exact ⟨indent, tail, hindent, .pad hpad, rfl⟩
      · exact ⟨indent, tail ++ [13], hindent, .carriage hpad, rfl⟩
  | @comment pad body hpad =>
      rcases hline with rfl | rfl
      · exact ⟨indent, pad ++ 35 :: body, hindent, .comment hpad, rfl⟩
      · refine ⟨indent, pad ++ 35 :: (body ++ [13]), hindent, .comment hpad, ?_⟩
        simp

theorem Row.isLine_nil (h : Row closing [] text line) : Line text line :=
  h.isLine blank_nil

theorem blank_of_spaces (h : ∀ c ∈ indent, c = 32) : Blank indent := by
  intro c hc
  simp [h c hc, valueBlanks]

theorem Mapping.keyed (h : Mapping key value text) : Keyed key 58 value text := by
  obtain ⟨before, blank, after, hbefore, hafter, rfl⟩ := h
  exact ⟨before, blank :: after, hbefore, hafter, rfl⟩

/-- The rows of a block list stand in front of lines that begin with no item. -/
theorem Block.groupsTo (h : Block indent items rows) (hindent : Blank indent)
    (hrest : GroupsTo yamlPart lines [] declared) :
    GroupsTo yamlPart (rows ++ lines) items declared := by
  induction h with
  | nil => exact hrest
  | blank hrow _ ih => exact ih.blank hrow.isLine_nil
  | item hword hscalar hpad hrow _ ih => exact ih.yamlItem hscalar hpad hword (hrow.isLine hindent)

theorem TomlEntry.groupsTo {declaration : Declaration} (h : TomlEntry declaration rows)
    (hrest : GroupsTo tomlPart lines [] declared) :
    GroupsTo tomlPart (rows ++ lines) [] (declaration :: declared) := by
  cases h with
  | profile hindent hvalue hkeyed hrow =>
      exact hrest.tomlProfile hkeyed (hrow.isLine hindent) hvalue.readable hvalue.unquote
  | enabled hindent hwords hinline hkeyed hrow =>
      exact hrest.tomlEnabled hkeyed (hrow.isLine hindent) hinline hwords

theorem YamlEntry.groupsTo {declaration : Declaration} (h : YamlEntry declaration rows)
    (hrest : GroupsTo yamlPart lines [] declared) :
    GroupsTo yamlPart (rows ++ lines) [] (declaration :: declared) := by
  cases h with
  | profile hvalue hmapping hrow =>
      exact hrest.yamlProfile hmapping.keyed hrow.isLine_nil hvalue.readable hvalue.unquote
  | inline hwords hinline hmapping hrow =>
      exact hrest.yamlInline hmapping.keyed hrow.isLine_nil hinline hwords
  | block hpad hrow hindent hblock =>
      exact (hblock.groupsTo (blank_of_spaces hindent) hrest).yamlBlock hpad hrow.isLine_nil

/-- A scanner that takes every entry for its declaration takes a file for its declarations. -/
theorem Entries.groupsTo {part : Bytes → Option Part} {entry : Declaration → List Bytes → Prop}
    (hentry : ∀ declaration rows, entry declaration rows → ∀ declared lines,
      GroupsTo part lines [] declared →
        GroupsTo part (rows ++ lines) [] (declaration :: declared))
    (h : Entries entry declared lines) : GroupsTo part lines [] declared := by
  induction h with
  | nil => exact ⟨[], rfl, rfl⟩
  | blank hrow _ ih => exact ih.blank hrow.isLine_nil
  | entry hentered _ ih => exact hentry _ _ hentered _ _ ih

theorem declarations_of_tomlFile (h : TomlFile declared source) :
    declarations tomlPart source = some declared :=
  (Entries.groupsTo (fun _ _ hentry _ _ => hentry.groupsTo) h).declarations

theorem declarations_of_yamlFile (h : YamlFile declared source) :
    declarations yamlPart source = some declared :=
  (Entries.groupsTo (fun _ _ hentry _ _ => hentry.groupsTo) h).declarations

end Scanners

/-- **The loaders fail closed exactly for documented files with clean profile values.** -/
theorem load_failsClosed_iff (source : Bytes) (loaded : FeatureConfig) :
    (loadToml source [] = .ok loaded →
      (FailsClosed TomlFile source loaded ↔ CleanSource TomlFile source)) ∧
    (loadYaml source [] = .ok loaded →
      (FailsClosed YamlFile source loaded ↔ CleanSource YamlFile source)) := by
  constructor
  · intro h
    rw [loadToml_eq] at h
    exact toml.failsClosed_iff (fun _ => declarations_of_tomlFile) h
  · intro h
    rw [loadYaml_eq] at h
    exact yaml.failsClosed_iff (fun _ => declarations_of_yamlFile) h

/-- A profile value that closes its JSON string and adds a feature list. -/
def smuggledList : Bytes :=
  ascii "profile = \"secure\",\"enabled\":[\"ubiq\",\"supervisor\"],\"x\":\"y\""

/-- It loads as the profile `secure` without its security features, and declares neither. -/
theorem not_failsClosed_smuggledList :
    loadToml smuggledList [] = .ok ⟨.secure, [.ubiq, .supervisor]⟩ ∧
      ¬FailsClosed TomlFile smuggledList ⟨.secure, [.ubiq, .supervisor]⟩ := by
  refine ⟨by decide +kernel, ?_⟩
  rintro ⟨declared, hdeclared, hfaithful⟩
  have hread : declarations tomlPart smuggledList =
      some [.profile (ascii "secure\",\"enabled\":[\"ubiq\",\"supervisor\"],\"x\":\"y")] := by
    decide +kernel
  obtain rfl := Option.some.inj (hread.symm.trans (declarations_of_tomlFile hdeclared))
  exact absurd hfaithful.profile (by decide +kernel)

/-- A file with both keys. -/
def secureList : Bytes :=
  ascii "profile = \"secure\"\nenabled = [\"ubiq\", \"supervisor\", \"crypto\"]"

theorem load_failsClosed_secureList :
    loadToml secureList [] = .ok ⟨.secure, [.ubiq, .supervisor, .crypto]⟩ ∧
      (FailsClosed TomlFile secureList ⟨.secure, [.ubiq, .supervisor, .crypto]⟩ ↔
        CleanSource TomlFile secureList) := by
  have hload : loadToml secureList [] = .ok ⟨.secure, [.ubiq, .supervisor, .crypto]⟩ := by
    decide +kernel
  exact ⟨hload, (load_failsClosed_iff _ _).1 hload⟩

end Ubiq.Config
