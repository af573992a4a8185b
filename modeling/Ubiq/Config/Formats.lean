import Ubiq.Config.FailClosed

/-!
# The three formats agree

A configuration can be written as a JSON object, in the TOML subset and in the YAML subset, with
any spaces and tabs, blank lines, comments, carriage returns, quotes and key order. Every way of
writing it declares the same thing (`groupsTo_of_tomlLines`, `groupsTo_of_yamlLines`), and from
there on the three loaders do the same.
-/

namespace Ubiq.Config

open Foundation
open Foundation.Json (Value Chunk)

/-- What a configuration file can set: words and tokens over `a`-`z`, `0`-`9` and `_`. -/
structure Settings where
  profile : Option Bytes
  enabled : Option (List Bytes)
  profileWord : ∀ name ∈ profile, isToken name = true
  tokens : ∀ listed ∈ enabled, ∀ token ∈ listed, isToken token = true

/-- The declarations of the settings. -/
def Settings.declared (settings : Settings) : List Declaration :=
  (settings.profile.map .profile).toList ++ (settings.enabled.map .enabled).toList

/-! ## Ways of writing -/

/-- Spaces and tabs. -/
def Blank (pad : Bytes) : Prop := ∀ c ∈ pad, c ∈ valueBlanks

/-- A word, bare or in quotes. -/
inductive Scalar (word : Bytes) : Bytes → Prop
  | bare : Scalar word word
  | double : Scalar word (34 :: (word ++ [34]))
  | single : Scalar word (39 :: (word ++ [39]))

/-- What may stand at the end of a line: a comment takes the rest of it. -/
inductive LineEnd : Bytes → Prop
  | pad {pad : Bytes} : Blank pad → LineEnd pad
  | carriage {pad : Bytes} : Blank pad → LineEnd (pad ++ [13])
  | comment {pad text : Bytes} : Blank pad → LineEnd (pad ++ 35 :: text)

/-- A line with the given content. -/
def Line (content line : Bytes) : Prop :=
  ∃ pad tail, Blank pad ∧ LineEnd tail ∧ line = pad ++ content ++ tail

/-- Items with commas between them. -/
inductive Items : List Bytes → Bytes → Prop
  | last {word text : Bytes} : Scalar word text → Items [word] text
  | more {word text before after rest : Bytes} {words : List Bytes} :
      Scalar word text → Blank before → Blank after → Items words rest →
        Items (word :: words) (text ++ before ++ 44 :: (after ++ rest))

/-- A list in brackets. -/
inductive Inline : List Bytes → Bytes → Prop
  | empty {pad : Bytes} : Blank pad → Inline [] (91 :: (pad ++ [93]))
  | items {before after text : Bytes} {words : List Bytes} :
      Blank before → Blank after → Items words text → Inline words (91 :: (before ++ text ++ after ++ [93]))

/-- A key, a separator and a value. -/
def Keyed (key : Bytes) (separator : UInt8) (value text : Bytes) : Prop :=
  ∃ before after, Blank before ∧ Blank after ∧ text = key ++ before ++ separator :: (after ++ value)

/-- The lines of a TOML file. -/
inductive TomlLines : List Declaration → List Bytes → Prop
  | nil : TomlLines [] []
  | blank {line : Bytes} {declared : List Declaration} {lines : List Bytes} :
      Line [] line → TomlLines declared lines → TomlLines declared (line :: lines)
  | profile {name value text line : Bytes} {declared : List Declaration} {lines : List Bytes} :
      Scalar name value → Keyed (ascii "profile") 61 value text → Line text line →
        TomlLines declared lines → TomlLines (.profile name :: declared) (line :: lines)
  | enabled {words : List Bytes} {value text line : Bytes} {declared : List Declaration}
      {lines : List Bytes} :
      Inline words value → Keyed (ascii "enabled") 61 value text → Line text line →
        TomlLines declared lines → TomlLines (.enabled words :: declared) (line :: lines)

/-- The lines of a YAML file behind items that wait for the head of their list. -/
inductive YamlLines : List Bytes → List Declaration → List Bytes → Prop
  | nil : YamlLines [] [] []
  | blank {line : Bytes} {items : List Bytes} {declared : List Declaration} {lines : List Bytes} :
      Line [] line → YamlLines items declared lines → YamlLines items declared (line :: lines)
  | profile {name value text line : Bytes} {declared : List Declaration} {lines : List Bytes} :
      Scalar name value → Keyed (ascii "profile") 58 value text → Line text line →
        YamlLines [] declared lines → YamlLines [] (.profile name :: declared) (line :: lines)
  | inline {words : List Bytes} {value text line : Bytes} {declared : List Declaration}
      {lines : List Bytes} :
      Inline words value → Keyed (ascii "enabled") 58 value text → Line text line →
        YamlLines [] declared lines → YamlLines [] (.enabled words :: declared) (line :: lines)
  | block {pad line : Bytes} {items : List Bytes} {declared : List Declaration}
      {lines : List Bytes} :
      Blank pad → Line (ascii "enabled" ++ pad ++ [58]) line →
        YamlLines items declared lines → YamlLines [] (.enabled items :: declared) (line :: lines)
  | item {word value pad line : Bytes} {items : List Bytes} {declared : List Declaration}
      {lines : List Bytes} :
      Scalar word value → Blank pad → Line (45 :: 32 :: (pad ++ value)) line →
        YamlLines items declared lines → YamlLines (word :: items) declared (line :: lines)

/-- The source is a TOML file with these settings, in either order. -/
def TomlText (settings : Settings) (source : Bytes) : Prop :=
  ∃ declared, declared.Perm settings.declared ∧ TomlLines declared (Text.splitScalar newline source)

/-- The source is a YAML file with these settings, in either order. -/
def YamlText (settings : Settings) (source : Bytes) : Prop :=
  ∃ declared, declared.Perm settings.declared ∧ YamlLines [] declared (Text.splitScalar newline source)

/-- The source is a JSON object with these settings, in either order. -/
def JsonText (settings : Settings) (source : Bytes) : Prop :=
  ∃ members, parseFromSlice source = some (.object members) ∧
    members.Perm (declaredObject settings.profile settings.enabled)

/-! ## Words -/

variable {other separator : UInt8} {word text pad line key value : Bytes}
  {words lines items : List Bytes} {part : Bytes → Option Part}

/-- A byte of a token is no byte that the scanners look for. -/
theorem tokenByte_ne {byte : UInt8} (h : tokenByte byte = true) (hother : tokenByte other = false) :
    byte ≠ other := by
  rintro rfl
  exact absurd h (by simp [hother])

theorem isToken_iff {token : Bytes} :
    isToken token = true ↔ token ≠ [] ∧ ∀ byte ∈ token, tokenByte byte = true := by
  simp [isToken]

theorem Scalar.mem (h : Scalar word text) (hword : isToken word = true) {byte : UInt8}
    (hmem : byte ∈ text) : tokenByte byte = true ∨ byte = 34 ∨ byte = 39 := by
  obtain ⟨-, hall⟩ := isToken_iff.mp hword
  cases h with
  | bare => exact Or.inl (hall byte hmem)
  | double =>
      rcases List.mem_cons.mp hmem with hfirst | hrest
      · exact Or.inr (Or.inl hfirst)
      · rcases List.mem_append.mp hrest with hin | hlast
        · exact Or.inl (hall byte hin)
        · exact Or.inr (Or.inl (List.mem_singleton.mp hlast))
  | single =>
      rcases List.mem_cons.mp hmem with hfirst | hrest
      · exact Or.inr (Or.inr hfirst)
      · rcases List.mem_append.mp hrest with hin | hlast
        · exact Or.inl (hall byte hin)
        · exact Or.inr (Or.inr (List.mem_singleton.mp hlast))

theorem Scalar.not_mem (h : Scalar word text) (hword : isToken word = true)
    (hother : tokenByte other = false) (hquote : other ≠ 34 ∧ other ≠ 39) :
    other ∉ text := by
  intro hmem
  rcases h.mem hword hmem with htoken | hdouble | hsingle
  · exact absurd htoken (by simp [hother])
  · exact hquote.1 hdouble
  · exact hquote.2 hsingle

theorem Scalar.ne_nil (h : Scalar word text) (hword : isToken word = true) :
    text ≠ [] := by
  cases h with
  | bare => exact (isToken_iff.mp hword).1
  | double => simp
  | single => simp

theorem Scalar.tight {set : Bytes} (h : Scalar word text) (hword : isToken word = true)
    (hset : ∀ other ∈ set, tokenByte other = false ∧ other ≠ 34 ∧ other ≠ 39) :
    Text.Tight set text := by
  have hall : ∀ byte ∈ text, byte ∉ set := by
    intro byte hmem hin
    exact h.not_mem hword (hset byte hin).1 (hset byte hin).2 hmem
  exact ⟨fun a ha => hall a (List.mem_of_mem_head? ha),
    fun a ha => hall a (List.mem_of_mem_getLast? ha)⟩

theorem valueBlanks_subset : ∀ c ∈ valueBlanks, c ∈ lineBlanks := by
  simp [valueBlanks, lineBlanks]

/-- White space occurs in no scalar. -/
theorem lineBlanks_plain :
    ∀ other ∈ lineBlanks, tokenByte other = false ∧ other ≠ 34 ∧ other ≠ 39 := by
  simp only [lineBlanks, List.forall_mem_cons]
  exact ⟨by decide, by decide, by decide, List.forall_mem_nil _⟩

theorem valueBlanks_plain (other : UInt8) (h : other ∈ valueBlanks) :
    tokenByte other = false ∧ other ≠ 34 ∧ other ≠ 39 :=
  lineBlanks_plain other (valueBlanks_subset other h)

theorem enclosed_cons (opening closing : UInt8) (text : Bytes) :
    enclosed opening closing (opening :: (text ++ [closing])) = true ∧
      inner (opening :: (text ++ [closing])) = text := by
  have hlast : (opening :: (text ++ [closing])).getLast? = some closing := by
    rw [← List.cons_append, List.getLast?_concat]
  constructor
  · simp [enclosed, hlast]
  · simp [inner]

/-- **A word is read from any of its forms.** -/
theorem Scalar.unquote (h : Scalar word text) (hword : isToken word = true) :
    unquote text = some word := by
  cases h with
  | double => simp [Config.unquote, enclosed_cons]
  | single => simp [Config.unquote, enclosed_cons]
  | bare =>
      obtain ⟨hne, hall⟩ := isToken_iff.mp hword
      have hopen : ∀ quote : UInt8, tokenByte quote = false → enclosed quote quote word = false := by
        intro quote hquote
        cases word with
        | nil => exact absurd rfl hne
        | cons c rest =>
            have hc : c ≠ quote := tokenByte_ne (hall c List.mem_cons_self) hquote
            simp [enclosed, hc]
      have hreserved : (word.all fun c => reserved.all fun other => c ≠ other) = true := by
        simp only [List.all_eq_true]
        intro c hc other hother
        have hnot : ∀ other ∈ reserved, tokenByte other = false := by decide +kernel
        exact decide_eq_true (tokenByte_ne (hall c hc) (hnot other hother))
      rw [Config.unquote, hopen 34 (by decide), hopen 39 (by decide), hreserved]
      simp [hne]

/-! ## Lines -/

theorem Blank.subset (h : Blank pad) : ∀ c ∈ pad, c ∈ lineBlanks := by
  exact fun c hc => valueBlanks_subset c (h c hc)

theorem Blank.not_mem (h : Blank pad) (hother : other ∉ valueBlanks) :
    other ∉ pad :=
  fun hmem => hother (h other hmem)

/-- The end of a line leaves white space only. -/
theorem LineEnd.takeWhile {tail : Bytes} (h : LineEnd tail) :
    ∃ pad, (∀ c ∈ pad, c ∈ lineBlanks) ∧ (tail.takeWhile fun c => c ≠ 35) = pad := by
  have hkeep : ∀ pad : Bytes, Blank pad → ∀ c ∈ pad, decide (c ≠ 35) = true := by
    intro pad hpad c hc
    have hne : ∀ c ∈ valueBlanks, c ≠ 35 := by simp [valueBlanks]
    simpa using hne c (hpad c hc)
  cases h with
  | pad hpad => exact ⟨tail, hpad.subset, List.takeWhile_eq_self_iff.mpr (hkeep tail hpad)⟩
  | @carriage pad hpad =>
      refine ⟨pad ++ [13], ?_, ?_⟩
      · exact List.forall_mem_append.mpr ⟨hpad.subset, List.forall_mem_singleton.mpr (by decide)⟩
      · rw [List.takeWhile_append_of_pos (hkeep pad hpad)]
        rfl
  | @comment pad text hpad =>
      refine ⟨pad, hpad.subset, ?_⟩
      rw [List.takeWhile_append_of_pos (hkeep pad hpad)]
      simp

/-- **The scanners see the content of a line.** -/
theorem Line.content_eq (h : Line text line) (htight : Text.Tight lineBlanks text)
    (hhash : 35 ∉ text) : content line = text := by
  obtain ⟨pad, tail, hpad, htail, rfl⟩ := h
  obtain ⟨rest, hrest, htake⟩ := htail.takeWhile
  have hfront : ∀ c ∈ pad ++ text, decide (c ≠ 35) = true := by
    intro c hc
    rcases List.mem_append.mp hc with hleft | hright
    · simpa using ne_of_mem_of_not_mem hleft (hpad.not_mem (by decide))
    · simpa using ne_of_mem_of_not_mem hright hhash
  rw [content, trimComment, List.takeWhile_append_of_pos hfront, htake]
  exact Text.trim_around hpad.subset hrest htight

/-! ## Keys and values -/

theorem isToken_profile : isToken (ascii "profile") = true := rfl

theorem isToken_enabled : isToken (ascii "enabled") = true := rfl

theorem enabled_ne_profile : ascii "enabled" ≠ ascii "profile" := by decide

theorem Keyed.keyValue (h : Keyed key separator value text) (hkey : isToken key = true)
    (hseparator : tokenByte separator = false ∧ separator ∉ valueBlanks)
    (hvalue : Text.Tight valueBlanks value) :
    keyValue separator text = some (key, value) := by
  obtain ⟨before, after, hbefore, hafter, rfl⟩ := h
  have hnot : separator ∉ key ++ before := by
    intro hmem
    rcases List.mem_append.mp hmem with hleft | hright
    · exact tokenByte_ne ((isToken_iff.mp hkey).2 _ hleft) hseparator.1 rfl
    · exact hbefore.not_mem hseparator.2 hright
  have htight : Text.Tight valueBlanks key :=
    Scalar.bare.tight hkey valueBlanks_plain
  have hleft : Text.trim valueBlanks ([] ++ key ++ before) = key :=
    Text.trim_around (by simp) hbefore htight
  have hright : Text.trim valueBlanks (after ++ value ++ []) = value :=
    Text.trim_around hafter (by simp) hvalue
  rw [List.nil_append] at hleft
  rw [List.append_nil] at hright
  rw [Config.keyValue, Format.readUntil_append hnot]
  simp only [Option.map_some, hleft, hright]

/-- A value that can stand behind a key. -/
structure Readable (value : Bytes) : Prop where
  ne_nil : value ≠ []
  tight : Text.Tight lineBlanks value
  no_comment : 35 ∉ value

theorem Readable.tight_value (h : Readable value) : Text.Tight valueBlanks value := by
  exact ⟨fun a ha hmem => h.tight.head a ha (valueBlanks_subset a hmem),
    fun a ha hmem => h.tight.last a ha (valueBlanks_subset a hmem)⟩

theorem Scalar.readable (h : Scalar word text) (hword : isToken word = true) :
    Readable text :=
  ⟨h.ne_nil hword, h.tight hword lineBlanks_plain, h.not_mem hword (by decide) (by decide)⟩

/-- The content of a line with a key and a value. -/
theorem Keyed.content_eq (h : Keyed key separator value text) (hline : Line text line)
    (hkey : isToken key = true) (hseparator : separator ≠ 35) (hvalue : Readable value) :
    content line = text ∧ text ≠ [] := by
  obtain ⟨before, after, hbefore, hafter, rfl⟩ := h
  obtain ⟨hne, hall⟩ := isToken_iff.mp hkey
  have hshape : key ++ before ++ separator :: (after ++ value) =
      key ++ (before ++ separator :: after) ++ value := by simp
  have htight : Text.Tight lineBlanks (key ++ before ++ separator :: (after ++ value)) := by
    rw [hshape]
    exact (Scalar.bare.tight hkey lineBlanks_plain).append hvalue.tight hne hvalue.ne_nil _
  have hhash : 35 ∉ key ++ before ++ separator :: (after ++ value) := by
    simp only [List.mem_append, List.mem_cons, not_or]
    exact ⟨⟨Scalar.bare.not_mem hkey (by decide) (by decide), hbefore.not_mem (by decide)⟩,
      hseparator.symm, hafter.not_mem (by decide), hvalue.no_comment⟩
  exact ⟨hline.content_eq htight hhash, by simp [hne]⟩

/-! ## Lists -/

theorem Items.not_mem (h : Items words text) (hwords : ∀ word ∈ words, isToken word = true) :
    35 ∉ text := by
  induction h with
  | last hscalar => exact hscalar.not_mem (hwords _ List.mem_cons_self) (by decide) (by decide)
  | more hscalar hbefore hafter _ ih =>
      obtain ⟨hword, hrest⟩ := List.forall_mem_cons.mp hwords
      simp only [List.mem_append, List.mem_cons, not_or]
      exact ⟨⟨hscalar.not_mem hword (by decide) (by decide), hbefore.not_mem (by decide)⟩,
        by decide, hafter.not_mem (by decide), ih hrest⟩

theorem Items.tight (h : Items words text) (hwords : ∀ word ∈ words, isToken word = true) :
    Text.Tight valueBlanks text ∧ text ≠ [] := by
  induction h with
  | last hscalar =>
      have hword := hwords _ List.mem_cons_self
      exact ⟨hscalar.tight hword valueBlanks_plain, hscalar.ne_nil hword⟩
  | @more word text before after rest words hscalar hbefore hafter _ ih =>
      obtain ⟨hword, hrest⟩ := List.forall_mem_cons.mp hwords
      obtain ⟨htight, hne⟩ := ih hrest
      have hshape : text ++ before ++ 44 :: (after ++ rest) =
          text ++ (before ++ 44 :: after) ++ rest := by simp
      rw [hshape]
      exact ⟨(hscalar.tight hword valueBlanks_plain).append htight (hscalar.ne_nil hword) hne _,
        by simp⟩

/-- The items are read one by one, behind any white space. -/
theorem Items.mapM (h : Items words text) (hwords : ∀ word ∈ words, isToken word = true)
    (hpad : Blank pad) :
    ((Text.splitScalar 44 (pad ++ text)).mapM fun item => unquote (Text.trim valueBlanks item)) =
      some words := by
  induction h generalizing pad with
  | @last word text hscalar =>
      have hword := hwords _ List.mem_cons_self
      have hcomma : 44 ∉ pad ++ text := by
        simp only [List.mem_append, not_or]
        exact ⟨hpad.not_mem (by decide), hscalar.not_mem hword (by decide) (by decide)⟩
      have htrim : Text.trim valueBlanks (pad ++ text ++ []) = text :=
        Text.trim_around hpad (by simp) (hscalar.tight hword valueBlanks_plain)
      rw [List.append_nil] at htrim
      rw [Text.splitScalar_of_not_mem hcomma]
      simp [htrim, hscalar.unquote hword]
  | @more word text before after rest words hscalar hbefore hafter _ ih =>
      obtain ⟨hword, hrest⟩ := List.forall_mem_cons.mp hwords
      have hcomma : 44 ∉ pad ++ text ++ before := by
        simp only [List.mem_append, not_or]
        exact ⟨⟨hpad.not_mem (by decide), hscalar.not_mem hword (by decide) (by decide)⟩,
          hbefore.not_mem (by decide)⟩
      have htrim : Text.trim valueBlanks (pad ++ text ++ before) = text :=
        Text.trim_around hpad hbefore (hscalar.tight hword valueBlanks_plain)
      have hshape : pad ++ (text ++ before ++ 44 :: (after ++ rest)) =
          (pad ++ text ++ before) ++ 44 :: (after ++ rest) := by simp
      rw [hshape, Text.splitScalar_append_cons hcomma, List.mapM_cons, htrim,
        hscalar.unquote hword, ih hrest hafter]
      rfl

/-- A text between two bytes that are neither white space nor a comment. -/
theorem readable_enclosed {opening closing : UInt8} (hopening : opening ∉ 35 :: lineBlanks)
    (hclosing : closing ∉ 35 :: lineBlanks) (hinside : 35 ∉ text) :
    Readable (opening :: (text ++ [closing])) := by
  rw [List.mem_cons, not_or] at hopening hclosing
  refine ⟨by simp, ⟨?_, ?_⟩, ?_⟩
  · intro a ha
    rw [List.head?_cons, Option.mem_some_iff] at ha
    exact ha ▸ hopening.2
  · intro a ha
    rw [← List.cons_append, List.getLast?_concat, Option.mem_some_iff] at ha
    exact ha ▸ hclosing.2
  · simp [hinside, Ne.symm hopening.1, Ne.symm hclosing.1]

theorem Inline.readable (h : Inline words text) (hwords : ∀ word ∈ words, isToken word = true) :
    Readable text := by
  cases h with
  | empty hpad => exact readable_enclosed (by decide) (by decide) (hpad.not_mem (by decide))
  | items hbefore hafter hitems =>
      refine readable_enclosed (by decide) (by decide) ?_
      simp only [List.mem_append, not_or]
      exact ⟨⟨hbefore.not_mem (by decide), hitems.not_mem hwords⟩, hafter.not_mem (by decide)⟩

/-- **A list is read from any of its forms.** -/
theorem Inline.inlineList (h : Inline words text) (hwords : ∀ word ∈ words, isToken word = true) :
    inlineList text = some words := by
  cases h with
  | @empty pad hpad =>
      obtain ⟨henclosed, hinner⟩ := enclosed_cons 91 93 pad
      have htrim : Text.trim valueBlanks (pad ++ [] ++ []) = [] :=
        Text.trim_around hpad (by simp) (Text.tight_nil _)
      simp only [List.append_nil] at htrim
      simp [Config.inlineList, henclosed, hinner, htrim]
  | @items before after text words hbefore hafter hitems =>
      obtain ⟨henclosed, hinner⟩ := enclosed_cons 91 93 (before ++ text ++ after)
      obtain ⟨htight, hne⟩ := hitems.tight hwords
      have htrim := Text.trim_around hbefore hafter htight
      have hnone : Blank [] := by simp [Blank]
      have hread := hitems.mapM hwords hnone
      rw [List.nil_append] at hread
      simp only [Config.inlineList, henclosed, hinner, htrim, if_true, if_neg hne, hread]

/-! ## Files -/

/-- Every word of the declaration is a token. -/
def Declaration.Written : Declaration → Prop
  | .profile name => isToken name = true
  | .enabled words => ∀ word ∈ words, isToken word = true

theorem contents_blank (h : Line [] line) (lines : List Bytes) :
    contents (line :: lines) = contents lines := by
  have hcontent := h.content_eq (Text.tight_nil _) (by simp)
  simp [contents, hcontent]

theorem contents_cons (h : content line = text ∧ text ≠ []) (lines : List Bytes) :
    contents (line :: lines) = text :: contents lines := by
  simp [contents, h.1, h.2]

/-- The parts of a list of lines, and what they are grouped to. -/
def GroupsTo (part : Bytes → Option Part) (lines items : List Bytes) (declared : List Declaration) :
    Prop :=
  ∃ parts, (contents lines).mapM part = some parts ∧ group parts = some (items, declared)

variable {declared : List Declaration} {parts : List Part}

theorem GroupsTo.blank (h : GroupsTo part lines items declared)
    (hline : Line [] line) :
    GroupsTo part (line :: lines) items declared := by
  rw [GroupsTo, contents_blank hline]
  exact h

theorem GroupsTo.cons {next : List Bytes} {added : List Declaration} {found : Part}
    (h : GroupsTo part lines items declared) (hline : content line = text ∧ text ≠ [])
    (hpart : part text = some found) (hgroup : ∀ parts, group parts = some (items, declared) →
      group (found :: parts) = some (next, added)) :
    GroupsTo part (line :: lines) next added := by
  obtain ⟨parts, hparts, hdeclared⟩ := h
  refine ⟨found :: parts, ?_, hgroup parts hdeclared⟩
  rw [contents_cons hline, List.mapM_cons, hpart, hparts]
  rfl

theorem group_profile (h : group parts = some ([], declared)) :
    group (.profile value :: parts) = some ([], .profile value :: declared) := by
  simp [group, h]

theorem group_inline (h : group parts = some ([], declared)) :
    group (.inline words :: parts) = some ([], .enabled words :: declared) := by
  simp [group, h]

section Parts

variable {name : Bytes}

/-! ### TOML lines -/

theorem GroupsTo.tomlProfile (h : GroupsTo tomlPart lines [] declared)
    (hkeyed : Keyed (ascii "profile") 61 value text) (hline : Line text line)
    (hvalue : Readable value) (hunquote : unquote value = some name) :
    GroupsTo tomlPart (line :: lines) [] (.profile name :: declared) := by
  have hpair := hkeyed.keyValue isToken_profile (by decide) hvalue.tight_value
  have hpart : tomlPart text = some (.profile name) := by simp [tomlPart, hpair, hunquote]
  exact h.cons (hkeyed.content_eq hline isToken_profile (by decide) hvalue) hpart
    fun _ => group_profile

theorem GroupsTo.tomlEnabled (h : GroupsTo tomlPart lines [] declared)
    (hkeyed : Keyed (ascii "enabled") 61 value text) (hline : Line text line)
    (hinline : Inline words value) (hwords : ∀ word ∈ words, isToken word = true) :
    GroupsTo tomlPart (line :: lines) [] (.enabled words :: declared) := by
  have hvalue := hinline.readable hwords
  have hpair := hkeyed.keyValue isToken_enabled (by decide) hvalue.tight_value
  have hpart : tomlPart text = some (.inline words) := by
    simp [tomlPart, hpair, enabled_ne_profile, hinline.inlineList hwords]
  exact h.cons (hkeyed.content_eq hline isToken_enabled (by decide) hvalue) hpart
    fun _ => group_inline

theorem groupsTo_of_tomlLines (h : TomlLines declared lines)
    (hwritten : ∀ entry ∈ declared, entry.Written) :
    GroupsTo tomlPart lines [] declared := by
  induction h with
  | nil => exact ⟨[], rfl, rfl⟩
  | blank hline _ ih => exact (ih hwritten).blank hline
  | profile hscalar hkeyed hline _ ih =>
      obtain ⟨hword, hrest⟩ := List.forall_mem_cons.mp hwritten
      exact (ih hrest).tomlProfile hkeyed hline (hscalar.readable hword) (hscalar.unquote hword)
  | enabled hinline hkeyed hline _ ih =>
      obtain ⟨hwords, hrest⟩ := List.forall_mem_cons.mp hwritten
      exact (ih hrest).tomlEnabled hkeyed hline hinline hwords

/-! ### YAML lines -/

/-- A key is no item of a block list. -/
theorem Keyed.head_ne (h : Keyed key separator value text) (hkey : isToken key = true) :
    text.head? ≠ some 45 := by
  obtain ⟨before, after, -, -, rfl⟩ := h
  obtain ⟨hne, hall⟩ := isToken_iff.mp hkey
  cases key with
  | nil => exact absurd rfl hne
  | cons c rest =>
      have hc : c ≠ 45 := tokenByte_ne (hall c List.mem_cons_self) (by decide)
      simpa using hc

theorem GroupsTo.yamlProfile (h : GroupsTo yamlPart lines [] declared)
    (hkeyed : Keyed (ascii "profile") 58 value text) (hline : Line text line)
    (hvalue : Readable value) (hunquote : unquote value = some name) :
    GroupsTo yamlPart (line :: lines) [] (.profile name :: declared) := by
  have hpair := hkeyed.keyValue isToken_profile (by decide) hvalue.tight_value
  have hpart : yamlPart text = some (.profile name) := by
    simp [yamlPart, hkeyed.head_ne isToken_profile, hpair, hvalue.ne_nil, hunquote]
  exact h.cons (hkeyed.content_eq hline isToken_profile (by decide) hvalue) hpart
    fun _ => group_profile

theorem GroupsTo.yamlInline (h : GroupsTo yamlPart lines [] declared)
    (hkeyed : Keyed (ascii "enabled") 58 value text) (hline : Line text line)
    (hinline : Inline words value) (hwords : ∀ word ∈ words, isToken word = true) :
    GroupsTo yamlPart (line :: lines) [] (.enabled words :: declared) := by
  have hvalue := hinline.readable hwords
  have hpair := hkeyed.keyValue isToken_enabled (by decide) hvalue.tight_value
  have hpart : yamlPart text = some (.inline words) := by
    simp [yamlPart, hkeyed.head_ne isToken_enabled, hpair, enabled_ne_profile, hvalue.ne_nil,
      hinline.inlineList hwords]
  exact h.cons (hkeyed.content_eq hline isToken_enabled (by decide) hvalue) hpart
    fun _ => group_inline

theorem content_block (hpad : Blank pad) (hline : Line (ascii "enabled" ++ pad ++ [58]) line) :
    content line = ascii "enabled" ++ pad ++ [58] := by
  have hcolon : Text.Tight lineBlanks [58] := ⟨by simp [lineBlanks], by simp [lineBlanks]⟩
  have hkey : Text.Tight lineBlanks (ascii "enabled") :=
    Scalar.bare.tight isToken_enabled lineBlanks_plain
  refine hline.content_eq (hkey.append hcolon (by decide) (by simp) pad) ?_
  simp only [List.mem_append, not_or]
  exact ⟨⟨by decide, hpad.not_mem (by decide)⟩, by decide⟩

/-- The line above a block list. -/
theorem GroupsTo.yamlBlock (h : GroupsTo yamlPart lines items declared) (hpad : Blank pad)
    (hline : Line (ascii "enabled" ++ pad ++ [58]) line) :
    GroupsTo yamlPart (line :: lines) [] (.enabled items :: declared) := by
  have hkeyed : Keyed (ascii "enabled") 58 [] (ascii "enabled" ++ pad ++ [58]) :=
    ⟨pad, [], hpad, by simp [Blank], by simp⟩
  have hpair := hkeyed.keyValue isToken_enabled (by decide) (Text.tight_nil _)
  have hpart : yamlPart (ascii "enabled" ++ pad ++ [58]) = some .block := by
    rw [yamlPart, if_neg (hkeyed.head_ne isToken_enabled), hpair]
    simp [enabled_ne_profile]
  refine h.cons ⟨content_block hpad hline, by simp⟩ hpart ?_
  intro parts hparts
  simp [group, hparts]

theorem content_item (hscalar : Scalar word value) (hpad : Blank pad) (hword : isToken word = true)
    (hline : Line (45 :: 32 :: (pad ++ value)) line) :
    content line = 45 :: 32 :: (pad ++ value) := by
  have hdash : Text.Tight lineBlanks [45] := ⟨by simp [lineBlanks], by simp [lineBlanks]⟩
  have htight := hdash.append (hscalar.tight hword lineBlanks_plain) (by simp) (hscalar.ne_nil hword)
    (32 :: pad)
  refine hline.content_eq (by simpa using htight) ?_
  simp only [List.mem_cons, List.mem_append, not_or]
  exact ⟨by decide, by decide, hpad.not_mem (by decide),
    hscalar.not_mem hword (by decide) (by decide)⟩

/-- An item of a block list. -/
theorem GroupsTo.yamlItem (h : GroupsTo yamlPart lines items declared)
    (hscalar : Scalar word value) (hpad : Blank pad) (hword : isToken word = true)
    (hline : Line (45 :: 32 :: (pad ++ value)) line) :
    GroupsTo yamlPart (line :: lines) (word :: items) declared := by
  have htrim : Text.trim valueBlanks (pad ++ value ++ []) = value :=
    Text.trim_around hpad (by simp) (hscalar.tight hword valueBlanks_plain)
  rw [List.append_nil] at htrim
  have hpart : yamlPart (45 :: 32 :: (pad ++ value)) = some (.item word) := by
    simp [yamlPart, htrim, hscalar.unquote hword]
  refine h.cons ⟨content_item hscalar hpad hword hline, by simp⟩ hpart ?_
  intro parts hparts
  simp [group, hparts]

theorem groupsTo_of_yamlLines (h : YamlLines items declared lines)
    (hitems : ∀ word ∈ items, isToken word = true) (hwritten : ∀ entry ∈ declared, entry.Written) :
    GroupsTo yamlPart lines items declared := by
  induction h with
  | nil => exact ⟨[], rfl, rfl⟩
  | blank hline _ ih => exact (ih hitems hwritten).blank hline
  | profile hscalar hkeyed hline _ ih =>
      obtain ⟨hword, hrest⟩ := List.forall_mem_cons.mp hwritten
      exact (ih hitems hrest).yamlProfile hkeyed hline (hscalar.readable hword)
        (hscalar.unquote hword)
  | inline hinline hkeyed hline _ ih =>
      obtain ⟨hwords, hrest⟩ := List.forall_mem_cons.mp hwritten
      exact (ih hitems hrest).yamlInline hkeyed hline hinline hwords
  | block hpad hline _ ih =>
      -- the items below the head belong to this declaration
      obtain ⟨hwords, hrest⟩ := List.forall_mem_cons.mp hwritten
      exact (ih hwords hrest).yamlBlock hpad hline
  | item hscalar hpad hline _ ih =>
      obtain ⟨hword, hrest⟩ := List.forall_mem_cons.mp hitems
      exact (ih hrest hwritten).yamlItem hscalar hpad hword hline

end Parts

theorem GroupsTo.declarations {source : Bytes}
    (h : GroupsTo part (Text.splitScalar newline source) [] declared) :
    declarations part source = some declared := by
  obtain ⟨parts, hparts, hgroup⟩ := h
  simp [Config.declarations, hparts, hgroup]

/-! ## The loaders agree -/

theorem Settings.written (settings : Settings) : ∀ entry ∈ settings.declared, entry.Written := by
  intro entry hmem
  rcases List.mem_append.mp hmem with hleft | hright
  · obtain ⟨name, hname, rfl⟩ := Option.map_eq_some_iff.mp (Option.mem_toList.mp hleft)
    exact settings.profileWord name hname
  · obtain ⟨words, hwords, rfl⟩ := Option.map_eq_some_iff.mp (Option.mem_toList.mp hright)
    exact settings.tokens words hwords

/-- One or no element has only one order. -/
theorem eq_toList_of_perm {α : Type} {xs : List α} {value : Option α} (h : xs.Perm value.toList) :
    xs = value.toList := by
  cases value with
  | none => exact List.perm_nil.mp h
  | some a => exact List.perm_singleton.mp h

section Order

variable {settings : Settings}

theorem Settings.profiles_eq (h : declared.Perm settings.declared) :
    profiles declared = settings.profile.toList := by
  refine eq_toList_of_perm ((h.filterMap _).trans (.of_eq ?_))
  unfold Settings.declared
  cases settings.profile <;> cases settings.enabled <;> rfl

theorem Settings.lists_eq (h : declared.Perm settings.declared) :
    lists declared = settings.enabled.toList := by
  refine eq_toList_of_perm ((h.filterMap _).trans (.of_eq ?_))
  unfold Settings.declared
  cases settings.profile <;> cases settings.enabled <;> rfl

theorem Settings.fits (h : declared.Perm settings.declared) : Fits {} [] declared := by
  refine ⟨by simp, by simp, ?_, ?_, ?_⟩
  · rw [Settings.lists_eq h]
    exact fun listed hlisted => settings.tokens listed (Option.mem_toList.mp hlisted)
  · rw [Settings.profiles_eq h]
    cases settings.profile <;> simp
  · rw [Settings.lists_eq h]
    cases settings.enabled <;> simp

/-- **A scanner hands the settings to `loadJson`.** -/
theorem Scanner.load_settings (scanner : Scanner) {source : Bytes}
    (hsource : declarations scanner.part source = some declared)
    (hperm : declared.Perm settings.declared) (overrides : List Override) :
    (scanner.scan source >>= fun scan => loadScan scan overrides) =
      loadObject (declaredObject settings.profile settings.enabled) overrides := by
  obtain ⟨final, hscan, hext⟩ := scanner.scan_of_declared hsource (Settings.fits hperm)
  have hprofile : final.profile = settings.profile := by
    rw [hext.profile_eq, Settings.profiles_eq hperm]
    cases settings.profile <;> rfl
  have hlisted : final.listed = settings.enabled := by
    rw [hext.listed_eq, Settings.lists_eq hperm]
    cases settings.enabled <;> rfl
  have hplain : PlainProfile final.profile := by
    intro name hname byte hbyte
    rw [hprofile] at hname
    exact (tokenByte_plain ((isToken_iff.mp (settings.profileWord name hname)).2 byte hbyte)).2
  have hvalid : ∀ name ∈ final.profile, Utf8.valid name = true := by
    intro name hname
    rw [hprofile] at hname
    exact Utf8.valid_of_ascii (isToken_ascii (settings.profileWord name hname))
  have hparse := parseFromSlice_encodeJson hplain hext.enabled_tokens
  rw [if_pos hvalid, hprofile, hlisted] at hparse
  rw [hscan]
  show loadScan final overrides = _
  rw [loadScan, loadJson, hprofile, hparse]

end Order

/-- The order of the members does not matter. -/
theorem loadObject_perm {members : List (Bytes × Value Bytes)} {profile : Option Bytes}
    {enabled : Option (List Bytes)} (h : members.Perm (declaredObject profile enabled))
    (overrides : List Override) :
    loadObject members overrides = loadObject (declaredObject profile enabled) overrides := by
  have hget : ∀ key, key = ascii "profile" ∨ key = ascii "enabled" →
      get members key = get (declaredObject profile enabled) key := by
    intro key hkey
    cases profile with
    | none => rw [eq_toList_of_perm h]; rfl
    | some name =>
        cases enabled with
        | none => rw [List.perm_singleton.mp h]; rfl
        | some tokens =>
            rcases List.perm_pair.mp h with hsame | hswapped
            · rw [hsame]; rfl
            · rw [hswapped]
              rcases hkey with rfl | rfl <;>
                simp [get, declaredObject, enabled_ne_profile, enabled_ne_profile.symm]
  rw [loadObject, loadObject, fileProfile, fileProfile, fileFeatures, fileFeatures,
    hget _ (Or.inl rfl), hget _ (Or.inr rfl)]

/-- **The three formats agree.** -/
theorem formats_agree (settings : Settings) {json toml yaml : Bytes}
    (hjson : JsonText settings json) (htoml : TomlText settings toml)
    (hyaml : YamlText settings yaml) (overrides : List Override) :
    load .toml toml overrides = load .json json overrides ∧
      load .yaml yaml overrides = load .json json overrides := by
  obtain ⟨members, hparse, hmembers⟩ := hjson
  have hload : load .json json overrides =
      loadObject (declaredObject settings.profile settings.enabled) overrides := by
    rw [← loadObject_perm hmembers]
    simp only [load, loadJson, hparse]
  rw [hload]
  constructor
  · obtain ⟨declared, hperm, hlines⟩ := htoml
    have hwritten : ∀ entry ∈ declared, entry.Written :=
      fun entry hentry => settings.written entry (hperm.mem_iff.mp hentry)
    have hsource := (groupsTo_of_tomlLines hlines hwritten).declarations
    rw [load, loadToml_eq]
    exact Config.toml.load_settings hsource hperm overrides
  · obtain ⟨declared, hperm, hlines⟩ := hyaml
    have hwritten : ∀ entry ∈ declared, entry.Written :=
      fun entry hentry => settings.written entry (hperm.mem_iff.mp hentry)
    have hsource := (groupsTo_of_yamlLines hlines (by simp) hwritten).declarations
    rw [load, loadYaml_eq]
    exact Config.yaml.load_settings hsource hperm overrides

/-! ### One configuration in three formats -/

theorem secure_isToken : ∀ name ∈ some (ascii "secure"), isToken name = true := by decide

theorem core_isToken : ∀ listed ∈ some [ascii "ubiq", ascii "supervisor"],
    ∀ token ∈ listed, isToken token = true := by decide

/-- The profile `secure` with the two core features. -/
def coreSettings : Settings where
  profile := some (ascii "secure")
  enabled := some [ascii "ubiq", ascii "supervisor"]
  profileWord := secure_isToken
  tokens := core_isToken

def coreJson : Bytes :=
  ascii "\x7b\"profile\":\"secure\",\"enabled\":[\"ubiq\",\"supervisor\"]\x7d"

def coreToml : Bytes :=
  ascii "enabled = [ 'ubiq',\"supervisor\"] # core\r\n\n profile=secure"

def coreYaml : Bytes :=
  ascii "profile: \"secure\"\r\nenabled:\n  - ubiq # first\n\t-  'supervisor'"

/-- What a scanner finds in the other two files. -/
def coreScan : Scan where
  profile := some (ascii "secure")
  enabled := [ascii "ubiq", ascii "supervisor"]
  profileSeen := true
  enabledSeen := true

theorem coreJson_text : JsonText coreSettings coreJson := by
  have htext : encodeJson coreScan.profile coreScan.enabled coreScan.enabledSeen = coreJson := by
    decide +kernel
  have hplain : PlainProfile coreScan.profile := by
    intro name hname byte hbyte
    exact (tokenByte_plain ((isToken_iff.mp (secure_isToken name hname)).2 byte hbyte)).2
  have hvalid : ∀ name ∈ coreScan.profile, Utf8.valid name = true := by decide +kernel
  have hparse := parseFromSlice_encodeJson hplain (core_isToken _ rfl)
  rw [if_pos hvalid, htext] at hparse
  exact ⟨_, hparse, List.Perm.refl _⟩

theorem blank_nil : Blank [] := by simp [Blank]

theorem blank_space : Blank [32] := by simp [Blank, valueBlanks]

theorem blank_tab : Blank [9] := by simp [Blank, valueBlanks]

theorem coreToml_text : TomlText coreSettings coreToml := by
  have hlines : Text.splitScalar newline coreToml =
      [ascii "enabled = [ 'ubiq',\"supervisor\"] # core\r", [], ascii " profile=secure"] := by
    decide +kernel
  have hsingle : Scalar (ascii "ubiq") (ascii "'ubiq'") := .single
  have hdouble : Scalar (ascii "supervisor") (ascii "\"supervisor\"") := .double
  have hlist : Inline [ascii "ubiq", ascii "supervisor"] (ascii "[ 'ubiq',\"supervisor\"]") :=
    .items blank_space blank_nil (.more hsingle blank_nil blank_nil (.last hdouble))
  have henabled : Keyed (ascii "enabled") 61 (ascii "[ 'ubiq',\"supervisor\"]")
      (ascii "enabled = [ 'ubiq',\"supervisor\"]") :=
    ⟨[32], [32], blank_space, blank_space, rfl⟩
  have hprofile : Keyed (ascii "profile") 61 (ascii "secure") (ascii "profile=secure") :=
    ⟨[], [], blank_nil, blank_nil, rfl⟩
  refine ⟨[.enabled [ascii "ubiq", ascii "supervisor"], .profile (ascii "secure")],
    List.Perm.swap _ _ _, ?_⟩
  rw [hlines]
  refine .enabled hlist henabled ⟨[], ascii " # core\r", blank_nil, .comment blank_space, rfl⟩ ?_
  refine .blank ⟨[], [], blank_nil, .pad blank_nil, rfl⟩ ?_
  exact .profile .bare hprofile ⟨[32], [], blank_space, .pad blank_nil, rfl⟩ .nil

theorem coreYaml_text : YamlText coreSettings coreYaml := by
  have hlines : Text.splitScalar newline coreYaml =
      [ascii "profile: \"secure\"\r", ascii "enabled:", ascii "  - ubiq # first",
        ascii "\t-  'supervisor'"] := by
    decide +kernel
  have hprofile : Keyed (ascii "profile") 58 (ascii "\"secure\"") (ascii "profile: \"secure\"") :=
    ⟨[], [32], blank_nil, blank_space, rfl⟩
  have hquoted : Scalar (ascii "secure") (ascii "\"secure\"") := .double
  have hsingle : Scalar (ascii "supervisor") (ascii "'supervisor'") := .single
  refine ⟨[.profile (ascii "secure"), .enabled [ascii "ubiq", ascii "supervisor"]],
    List.Perm.refl _, ?_⟩
  rw [hlines]
  refine .profile hquoted hprofile ⟨[], ascii "\r", blank_nil, .carriage blank_nil, rfl⟩ ?_
  refine .block blank_nil ⟨[], [], blank_nil, .pad blank_nil, rfl⟩ ?_
  refine .item .bare blank_nil
    ⟨[32, 32], ascii " # first", by simp [Blank, valueBlanks], .comment blank_space, rfl⟩ ?_
  exact .item hsingle blank_space ⟨[9], [], blank_tab, .pad blank_nil, rfl⟩ .nil

theorem formats_agree_core :
    JsonText coreSettings coreJson ∧ TomlText coreSettings coreToml ∧
      YamlText coreSettings coreYaml ∧
      load .toml coreToml [] = load .json coreJson [] ∧
      load .yaml coreYaml [] = load .json coreJson [] :=
  ⟨coreJson_text, coreToml_text, coreYaml_text,
    formats_agree coreSettings coreJson_text coreToml_text coreYaml_text []⟩

end Ubiq.Config
