import Ubiq.Config.Loader
import Ubiq.Foundation.Fallible

/-!
# What the scanners take a configuration file to declare

The lines of a TOML or YAML source are read here as the scanners read them, but without their
variables: every line that is not blank is one part (a declaration, or in YAML the head or an item
of a block list), and the items of a block list belong to the head above them. `accept` is the
scanner on parts; `tomlLine` and `yamlLine` succeed exactly where it does. `declared_of_scan` and
`scan_of_declared` relate a whole run of the scanner to these declarations.
-/

namespace Ubiq.Config

open Foundation

/-- A declaration of a file. -/
inductive Declaration
  | profile (value : Bytes)
  | enabled (items : List Bytes)
deriving DecidableEq, Repr

/-- What one line says. -/
inductive Part
  | profile (value : Bytes)
  | inline (items : List Bytes)
  | block
  | item (token : Bytes)
deriving DecidableEq, Repr

/-- A key and a value around the first separator. -/
def keyValue (separator : UInt8) (line : Bytes) : Option (Bytes × Bytes) :=
  (Format.readUntil separator line).map fun cut =>
    (Text.trim valueBlanks cut.1, Text.trim valueBlanks cut.2)

/-- The items of an inline list. -/
def inlineList (value : Bytes) : Option (List Bytes) :=
  if enclosed 91 93 value then
    let inside := Text.trim valueBlanks (inner value)
    if inside = [] then some []
    else (Text.splitScalar 44 inside).mapM fun item => unquote (Text.trim valueBlanks item)
  else none

/-- A line of TOML. -/
def tomlPart (line : Bytes) : Option Part :=
  match keyValue 61 line with
  | none => none
  | some (key, value) =>
      if key = ascii "profile" then (unquote value).map .profile
      else if key = ascii "enabled" then (inlineList value).map .inline
      else none

/-- A line of YAML. -/
def yamlPart (line : Bytes) : Option Part :=
  if line.head? = some 45 then
    if line.tail.head? = some 32 then
      (unquote (Text.trim valueBlanks (line.drop 2))).map .item
    else none
  else
    match keyValue 58 line with
    | none => none
    | some (key, value) =>
        if key = ascii "profile" then
          if value = [] then none else (unquote value).map .profile
        else if key = ascii "enabled" then
          if value = [] then some .block else (inlineList value).map .inline
        else none

/-- The declarations of some parts, and the items in front of them that wait for a head above. -/
def group : List Part → Option (List Bytes × List Declaration)
  | [] => some ([], [])
  | part :: rest =>
      match group rest with
      | none => none
      | some (items, declarations) =>
          match part with
          | .item token => some (token :: items, declarations)
          | .block => some ([], .enabled items :: declarations)
          | .profile value =>
              if items = [] then some ([], .profile value :: declarations) else none
          | .inline listed =>
              if items = [] then some ([], .enabled listed :: declarations) else none

/-- The lines of a source that are not blank. -/
def contents (lines : List Bytes) : List Bytes :=
  (lines.map content).filter fun line => line ≠ []

/-- The declarations that a scanner reads in a source, none if a line is not part of one. -/
def declarations (part : Bytes → Option Part) (source : Bytes) : Option (List Declaration) :=
  match (contents (Text.splitScalar newline source)).mapM part with
  | none => none
  | some parts =>
      match group parts with
      | some ([], declared) => some declared
      | _ => none

/-- The declared profiles. -/
def profiles (declared : List Declaration) : List Bytes :=
  declared.filterMap fun
    | .profile value => some value
    | .enabled _ => none

/-- The declared feature lists. -/
def lists (declared : List Declaration) : List (List Bytes) :=
  declared.filterMap fun
    | .profile _ => none
    | .enabled items => some items

/-! ## The scanner on parts -/

/-- What `appendToken` accepts. -/
def isToken (token : Bytes) : Bool :=
  token.length ≠ 0 && token.all tokenByte

/-- What a scanner does with a part, none for an error. -/
def accept (scan : Scan) : Part → Option Scan
  | .profile value =>
      if scan.profileSeen then none
      else some { scan with profile := some value, profileSeen := true, inEnabledList := false }
  | .inline items =>
      if scan.enabledSeen || !items.all isToken then none
      else some { scan with
        enabled := scan.enabled ++ items, enabledSeen := true, inEnabledList := false }
  | .block =>
      if scan.enabledSeen then none
      else some { scan with enabledSeen := true, inEnabledList := true }
  | .item token =>
      if !scan.inEnabledList || !isToken token then none
      else some { scan with enabled := scan.enabled ++ [token] }

theorem appendToken_eq (enabled : List Bytes) (token : Bytes) :
    appendToken enabled token =
      if isToken token then .ok (enabled ++ [token]) else .error .invalidFeatures := by
  by_cases hlen : token.length = 0 <;> by_cases hall : token.all tokenByte = true <;>
    simp [appendToken, isToken, hlen, hall]

/-- Append a token, as `appendToken` does. -/
def pushToken (enabled : List Bytes) (token : Bytes) : Option (List Bytes) :=
  if isToken token then some (enabled ++ [token]) else none

theorem inlineItem_factors (invalid : ConfigError) :
    Fallible.Factors (inlineItem invalid) (fun item => unquote (Text.trim valueBlanks item))
      pushToken := by
  intro enabled item next
  simp only [inlineItem]
  cases hunquote : unquote (Text.trim valueBlanks item) with
  | none => simp
  | some token =>
      simp only [appendToken_eq, pushToken, Option.some.injEq, exists_eq_left']
      by_cases htoken : isToken token = true <;> simp [htoken]

theorem foldlM_pushToken (enabled tokens next : List Bytes) :
    tokens.foldlM pushToken enabled = some next ↔
      tokens.all isToken = true ∧ enabled ++ tokens = next := by
  induction tokens generalizing enabled with
  | nil => simp
  | cons token tokens ih =>
      rw [List.foldlM_cons, Option.bind_eq_bind, Option.bind_eq_some_iff]
      by_cases htoken : isToken token = true <;> simp [pushToken, htoken, ih]

variable {value : Bytes}

/-- The list of a line is appended where every item can be read and is a token. -/
theorem inlineItems_eq_ok (invalid : ConfigError) (henclosed : enclosed 91 93 value = true)
    (enabled next : List Bytes) :
    inlineItems invalid enabled value = .ok next ↔
      ∃ tokens, inlineList value = some tokens ∧ tokens.all isToken = true ∧
        enabled ++ tokens = next := by
  unfold inlineItems inlineList
  simp only [henclosed, if_true]
  by_cases hinside : Text.trim valueBlanks (inner value) = []
  · simp [hinside]
  · have hlen : (Text.trim valueBlanks (inner value)).length ≠ 0 := by simpa using hinside
    rw [if_pos hlen, if_neg hinside, (inlineItem_factors invalid).foldlM]
    simp only [foldlM_pushToken]

/-- A list on a line, for both scanners. -/
theorem inline_factors (invalid : ConfigError) (henclosed : enclosed 91 93 value = true)
    (scan next : Scan) (hseen : scan.enabledSeen = false) :
    ((inlineItems invalid scan.enabled value).map fun enabled =>
        { scan with enabled := enabled, enabledSeen := true, inEnabledList := false }) = .ok next ↔
      ∃ part, (inlineList value).map .inline = some part ∧ accept scan part = some next := by
  rw [Fallible.map_eq_ok]
  simp only [inlineItems_eq_ok invalid henclosed, Option.map_eq_some_iff]
  constructor
  · rintro ⟨enabled, ⟨tokens, hlist, htokens, rfl⟩, rfl⟩
    exact ⟨.inline tokens, ⟨tokens, hlist, rfl⟩, by simp [accept, hseen, htokens]⟩
  · rintro ⟨part, ⟨tokens, hlist, rfl⟩, haccept⟩
    by_cases htokens : tokens.all isToken = true
    · refine ⟨_, ⟨tokens, hlist, htokens, rfl⟩, ?_⟩
      simpa [accept, hseen, htokens] using haccept
    · simp [accept, hseen, htokens] at haccept

theorem tomlContent_factors : Fallible.Factors tomlContent tomlPart accept := by
  intro scan trimmed next
  unfold tomlContent tomlPart keyValue
  cases hcut : Format.readUntil 61 trimmed with
  | none => simp
  | some cut =>
      obtain ⟨before, after⟩ := cut
      simp only [Option.map_some]
      split
      · cases hunquote : unquote (Text.trim valueBlanks after) with
        | none => simp
        | some profile => by_cases hseen : scan.profileSeen = true <;> simp [accept, hseen]
      · split
        · by_cases hseen : scan.enabledSeen = true
          · simp [accept, hseen]
          · by_cases henclosed : enclosed 91 93 (Text.trim valueBlanks after) = true
            · simpa [hseen, henclosed] using
                inline_factors .invalidToml henclosed scan next (by simpa using hseen)
            · simp [inlineList, henclosed]
        · simp

theorem yamlContent_factors : Fallible.Factors yamlContent yamlPart accept := by
  intro scan trimmed next
  unfold yamlContent yamlPart keyValue
  split
  · rename_i hdash
    have hlen : trimmed.tail.head? = some 32 → ¬trimmed.length < 2 := by
      intro hspace
      match trimmed, hspace with
      | _ :: _ :: _, _ => simp
    by_cases hspace : trimmed.tail.head? = some 32
    · cases hunquote : unquote (Text.trim valueBlanks (trimmed.drop 2)) with
      | none => simp [hspace]
      | some token =>
          by_cases hlist : scan.inEnabledList = true <;> by_cases htoken : isToken token = true <;>
            simp [accept, appendToken_eq, hspace, hlen hspace, hlist, htoken, Except.map]
    · simp only [hspace, ne_eq, not_false_eq_true, decide_true, Bool.or_true, if_true, if_false]
      simp
  · cases hcut : Format.readUntil 58 trimmed with
    | none => simp
    | some cut =>
        obtain ⟨before, after⟩ := cut
        simp only [Option.map_some, List.length_eq_zero_iff]
        split
        · by_cases hempty : Text.trim valueBlanks after = []
          · simp [hempty]
          · cases hunquote : unquote (Text.trim valueBlanks after) with
            | none => simp [hempty]
            | some profile =>
                by_cases hseen : scan.profileSeen = true <;> simp [accept, hseen, hempty]
        · split
          · by_cases hseen : scan.enabledSeen = true
            · by_cases hempty : Text.trim valueBlanks after = [] <;> simp [accept, hseen, hempty]
            · by_cases hempty : Text.trim valueBlanks after = []
              · simp [accept, hseen, hempty]
              · by_cases henclosed : enclosed 91 93 (Text.trim valueBlanks after) = true
                · simpa [hseen, hempty, henclosed] using
                    inline_factors .invalidYaml henclosed scan next (by simpa using hseen)
                · simp [inlineList, hseen, hempty, henclosed]
          · simp

/-! ## Whole runs -/

/-- A run from these variables can take the items that wait for a head above and the declarations
behind them. -/
structure Fits (scan : Scan) (items : List Bytes) (declared : List Declaration) : Prop where
  waiting : items ≠ [] → scan.inEnabledList = true
  waitingTokens : ∀ token ∈ items, isToken token = true
  tokens : ∀ listed ∈ lists declared, ∀ token ∈ listed, isToken token = true
  profileOnce : (profiles declared).length + scan.profileSeen.toNat ≤ 1
  enabledOnce : (lists declared).length + scan.enabledSeen.toNat ≤ 1

/-- What the run adds to the variables. -/
structure Extends (scan : Scan) (items : List Bytes) (declared : List Declaration) (final : Scan) :
    Prop extends Fits scan items declared where
  profile : final.profile = (profiles declared).head?.or scan.profile
  enabled : final.enabled = scan.enabled ++ items ++ (lists declared).flatten
  enabledSeen : final.enabledSeen = (scan.enabledSeen || !(lists declared).isEmpty)

variable {items : List Bytes} {declared : List Declaration}

@[simp] theorem profiles_profile :
    profiles (.profile value :: declared) = value :: profiles declared := rfl

@[simp] theorem profiles_enabled :
    profiles (.enabled items :: declared) = profiles declared := rfl

@[simp] theorem lists_profile :
    lists (.profile value :: declared) = lists declared := rfl

@[simp] theorem lists_enabled :
    lists (.enabled items :: declared) = items :: lists declared := rfl

/-- Nothing can wait behind a line that ends the block list. -/
theorem Fits.items_eq_nil {scan : Scan} (h : Fits scan items declared) (hlist : scan.inEnabledList = false) : items = [] := by
  by_contra hne
  exact absurd (h.waiting hne) (by simp [hlist])

theorem eq_nil_of_once {α : Type*} {found : List α} (h : found.length + true.toNat ≤ 1) :
    found = [] :=
  List.eq_nil_of_length_eq_zero (Nat.le_zero.mp (Nat.le_of_succ_le_succ h))

section Steps

variable {scan next final : Scan} {listed : List Bytes}

theorem Extends.profileLine (haccept : accept scan (.profile value) = some next)
    (h : Extends next items declared final) :
    items = [] ∧ Extends scan [] (.profile value :: declared) final := by
  simp only [accept, Option.ite_none_left_eq_some, Option.some.injEq] at haccept
  obtain ⟨hseen, rfl⟩ := haccept
  obtain rfl := h.items_eq_nil rfl
  have hnone := eq_nil_of_once h.profileOnce
  refine ⟨rfl, ⟨⟨by simp, by simp, h.tokens, ?_, h.enabledOnce⟩, ?_, h.enabled, h.enabledSeen⟩⟩
  · simp [hnone, hseen]
  · simpa [hnone] using h.profile

theorem Extends.inlineLine (haccept : accept scan (.inline listed) = some next)
    (h : Extends next items declared final) :
    items = [] ∧ Extends scan [] (.enabled listed :: declared) final := by
  simp only [accept, Option.ite_none_left_eq_some, Option.some.injEq, Bool.or_eq_true,
    Bool.not_eq_true', not_or, Bool.not_eq_false] at haccept
  obtain ⟨⟨hseen, htokens⟩, rfl⟩ := haccept
  obtain rfl := h.items_eq_nil rfl
  have hnone := eq_nil_of_once h.enabledOnce
  refine ⟨rfl, ⟨⟨by simp, by simp, ?_, h.profileOnce, ?_⟩, h.profile, ?_, ?_⟩⟩
  · simpa [hnone] using htokens
  · simp [hnone, hseen]
  · simpa [hnone] using h.enabled
  · simpa [hnone] using h.enabledSeen

theorem Extends.blockLine (haccept : accept scan .block = some next)
    (h : Extends next items declared final) : Extends scan [] (.enabled items :: declared) final := by
  simp only [accept, Option.ite_none_left_eq_some, Option.some.injEq] at haccept
  obtain ⟨hseen, rfl⟩ := haccept
  have hnone := eq_nil_of_once h.enabledOnce
  refine ⟨⟨by simp, by simp, ?_, h.profileOnce, ?_⟩, h.profile, ?_, ?_⟩
  · simpa [hnone] using h.waitingTokens
  · simp [hnone, hseen]
  · simpa [hnone] using h.enabled
  · simpa [hnone] using h.enabledSeen

theorem Extends.itemLine {token : Bytes} (haccept : accept scan (.item token) = some next)
    (h : Extends next items declared final) : Extends scan (token :: items) declared final := by
  simp only [accept, Option.ite_none_left_eq_some, Option.some.injEq, Bool.or_eq_true,
    Bool.not_eq_true', not_or, Bool.not_eq_false] at haccept
  obtain ⟨⟨hlist, htoken⟩, rfl⟩ := haccept
  refine ⟨⟨fun _ => hlist, ?_, h.tokens, h.profileOnce, h.enabledOnce⟩, h.profile, ?_, h.enabledSeen⟩
  · exact List.forall_mem_cons.mpr ⟨htoken, h.waitingTokens⟩
  · simpa using h.enabled

theorem Fits.profileLine (h : Fits scan [] (.profile value :: declared)) :
    ∃ next, accept scan (.profile value) = some next ∧ Fits next [] declared := by
  have honce := h.profileOnce
  simp only [profiles_profile, List.length_cons] at honce
  have hseen : scan.profileSeen = false := Bool.toNat_eq_zero.mp (by omega)
  refine ⟨{ scan with profile := some value, profileSeen := true, inEnabledList := false },
    by simp [accept, hseen], ⟨by simp, by simp, h.tokens, ?_, h.enabledOnce⟩⟩
  simp only [Bool.toNat_true]
  omega

/-- Only one list is taken, inline or as a block. -/
theorem Fits.listOnce (h : Fits scan items (.enabled listed :: declared)) :
    scan.enabledSeen = false ∧ lists declared = [] := by
  have honce := h.enabledOnce
  simp only [lists_enabled, List.length_cons] at honce
  exact ⟨Bool.toNat_eq_zero.mp (by omega), List.eq_nil_of_length_eq_zero (by omega)⟩

theorem Fits.inlineLine (h : Fits scan [] (.enabled listed :: declared)) :
    ∃ next, accept scan (.inline listed) = some next ∧ Fits next [] declared := by
  obtain ⟨hseen, hnone⟩ := h.listOnce
  have hlisted : listed.all isToken = true :=
    List.all_eq_true.mpr (h.tokens listed List.mem_cons_self)
  refine ⟨{ scan with enabled := scan.enabled ++ listed, enabledSeen := true, inEnabledList := false },
    by simp [accept, hseen, hlisted], ⟨by simp, by simp, by simp [hnone], h.profileOnce, ?_⟩⟩
  simp [hnone]

theorem Fits.blockLine (h : Fits scan [] (.enabled items :: declared)) :
    ∃ next, accept scan .block = some next ∧ Fits next items declared := by
  obtain ⟨hseen, hnone⟩ := h.listOnce
  refine ⟨{ scan with enabledSeen := true, inEnabledList := true }, by simp [accept, hseen],
    ⟨fun _ => rfl, h.tokens items List.mem_cons_self, by simp [hnone], h.profileOnce, ?_⟩⟩
  simp [hnone]

theorem Fits.itemLine {token : Bytes} (h : Fits scan (token :: items) declared) :
    ∃ next, accept scan (.item token) = some next ∧ Fits next items declared := by
  have hlist := h.waiting (List.cons_ne_nil _ _)
  obtain ⟨htoken, hitems⟩ := List.forall_mem_cons.mp h.waitingTokens
  exact ⟨{ scan with enabled := scan.enabled ++ [token] }, by simp [accept, hlist, htoken],
    ⟨fun _ => hlist, hitems, h.tokens, h.profileOnce, h.enabledOnce⟩⟩

end Steps

/-- **The declarations of an accepted list of parts.** -/
theorem group_of_foldlM {scan final : Scan} {parts : List Part}
    (h : parts.foldlM accept scan = some final) :
    ∃ items declared, group parts = some (items, declared) ∧ Extends scan items declared final := by
  induction parts generalizing scan with
  | nil =>
      obtain rfl : scan = final := by simpa using h
      refine ⟨[], [], rfl, ?_⟩
      refine ⟨⟨?_, ?_, ?_, ?_, ?_⟩, ?_, ?_, ?_⟩ <;> simp [profiles, lists, Bool.toNat_le]
  | cons part parts ih =>
      rw [List.foldlM_cons, Option.bind_eq_bind, Option.bind_eq_some_iff] at h
      obtain ⟨next, haccept, hrest⟩ := h
      obtain ⟨items, declared, hgroup, hext⟩ := ih hrest
      cases part with
      | profile value =>
          obtain ⟨rfl, hnew⟩ := hext.profileLine haccept
          exact ⟨[], .profile value :: declared, by simp [group, hgroup], hnew⟩
      | inline listed =>
          obtain ⟨rfl, hnew⟩ := hext.inlineLine haccept
          exact ⟨[], .enabled listed :: declared, by simp [group, hgroup], hnew⟩
      | block =>
          exact ⟨[], .enabled items :: declared, by simp [group, hgroup], hext.blockLine haccept⟩
      | item token =>
          exact ⟨token :: items, declared, by simp [group, hgroup], hext.itemLine haccept⟩

/-- A list of parts is accepted whose declarations fit. -/
theorem foldlM_of_group {scan : Scan} {parts : List Part}
    (hgroup : group parts = some (items, declared))
    (h : Fits scan items declared) : ∃ final, parts.foldlM accept scan = some final := by
  induction parts generalizing scan items declared with
  | nil => exact ⟨scan, rfl⟩
  | cons part parts ih =>
      rw [group] at hgroup
      split at hgroup
      · cases hgroup
      · rename_i waiting behind hrest
        suffices hstep : ∃ next, accept scan part = some next ∧ Fits next waiting behind by
          obtain ⟨next, haccept, hfits⟩ := hstep
          obtain ⟨final, hfinal⟩ := ih hrest hfits
          exact ⟨final, by rw [List.foldlM_cons, haccept]; exact hfinal⟩
        cases part with
        | profile value =>
            simp only [Option.ite_none_right_eq_some, Option.some.injEq, Prod.mk.injEq] at hgroup
            obtain ⟨rfl, rfl, rfl⟩ := hgroup
            exact h.profileLine
        | inline listed =>
            simp only [Option.ite_none_right_eq_some, Option.some.injEq, Prod.mk.injEq] at hgroup
            obtain ⟨rfl, rfl, rfl⟩ := hgroup
            exact h.inlineLine
        | block =>
            simp only [Option.some.injEq, Prod.mk.injEq] at hgroup
            obtain ⟨rfl, rfl⟩ := hgroup
            exact h.blockLine
        | item token =>
            simp only [Option.some.injEq, Prod.mk.injEq] at hgroup
            obtain ⟨rfl, rfl⟩ := hgroup
            exact h.itemLine

/-- The lines that are not blank decide about a run. -/
theorem foldlM_contents (body : Scan → Bytes → Except ConfigError Scan) (lines : List Bytes)
    (scan : Scan) :
    lines.foldlM
        (fun scan line => if (content line).length = 0 then .ok scan else body scan (content line))
        scan =
      (contents lines).foldlM body scan := by
  rw [contents, List.foldlM_filter, List.foldlM_map]
  congr 1
  funext scan line
  by_cases hline : content line = [] <;> simp [hline, pure, Except.pure]

/-- A scanner that reads parts and accepts them. -/
structure Scanner where
  body : Scan → Bytes → Except ConfigError Scan
  part : Bytes → Option Part
  factors : Fallible.Factors body part accept

/-- The loop of a scanner over the lines of a source. -/
def Scanner.scan (scanner : Scanner) (source : Bytes) : Except ConfigError Scan :=
  (contents (Text.splitScalar newline source)).foldlM scanner.body {}

/-- The scanner of `loadToml`. -/
def toml : Scanner := ⟨tomlContent, tomlPart, tomlContent_factors⟩

/-- The scanner of `loadYaml`. -/
def yaml : Scanner := ⟨yamlContent, yamlPart, yamlContent_factors⟩

theorem loadToml_eq (source : Bytes) (overrides : List Override) :
    loadToml source overrides = (toml.scan source >>= fun scan => loadScan scan overrides) := by
  rw [loadToml, Scanner.scan, ← foldlM_contents]
  rfl

theorem loadYaml_eq (source : Bytes) (overrides : List Override) :
    loadYaml source overrides = (yaml.scan source >>= fun scan => loadScan scan overrides) := by
  rw [loadYaml, Scanner.scan, ← foldlM_contents]
  rfl

/-- **What a scanner found is what the source declares.** -/
theorem Scanner.declared_of_scan (scanner : Scanner) {source : Bytes} {final : Scan}
    (h : scanner.scan source = .ok final) :
    ∃ declared, declarations scanner.part source = some declared ∧ Extends {} [] declared final := by
  obtain ⟨parts, hparts, hfold⟩ := (scanner.factors.foldlM _ _ _).mp h
  obtain ⟨items, declared, hgroup, hext⟩ := group_of_foldlM hfold
  obtain rfl := hext.items_eq_nil rfl
  exact ⟨declared, by simp [declarations, hparts, hgroup], hext⟩

/-- A source is scanned that declares each key at most once and only tokens. -/
theorem Scanner.scan_of_declared (scanner : Scanner) {source : Bytes}
    (h : declarations scanner.part source = some declared) (hfits : Fits {} [] declared) :
    ∃ final, scanner.scan source = .ok final ∧ Extends {} [] declared final := by
  rw [declarations] at h
  split at h
  · cases h
  · rename_i parts hparts
    split at h
    · rename_i found hgroup
      obtain rfl : found = declared := by simpa using h
      obtain ⟨final, hfold⟩ := foldlM_of_group hgroup hfits
      have hscan : scanner.scan source = .ok final :=
        (scanner.factors.foldlM _ _ _).mpr ⟨parts, hparts, hfold⟩
      obtain ⟨items, again, hagain, hext⟩ := group_of_foldlM hfold
      obtain ⟨rfl, rfl⟩ : [] = items ∧ found = again := by simpa [hgroup] using hagain
      exact ⟨final, hscan, hext⟩
    · cases h

end Ubiq.Config
