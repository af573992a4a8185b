import Ubiq.Config.Declarations

/-!
# The JSON text between the two parsers

`loadToml` and `loadYaml` write what they scanned as JSON text and parse it again. For a profile
value without a quote and without a backslash the text means the object it was written for, or
nothing: `parseFromSlice_encodeJson` and `object_of_parseFromSlice`.
-/

namespace Ubiq.Config

open Foundation
open Foundation.Json (Value Chunk plainBody quoted_plainBody wellFormed_plainBody)

/-- The syntax tree that `encodeJson` has in mind. -/
def written (profile : Option Bytes) (enabled : Option (List Bytes)) :
    List (List Chunk × Value (List Chunk)) :=
  (profile.map fun name => (plainBody (ascii "profile"), .string (plainBody name))).toList ++
    (enabled.map fun tokens =>
      (plainBody (ascii "enabled"), .array (tokens.map fun token => .string (plainBody token)))).toList

/-- The object that the text is written for. -/
def declaredObject (profile : Option Bytes) (enabled : Option (List Bytes)) :
    List (Bytes × Value Bytes) :=
  (profile.map fun name => (ascii "profile", .string name)).toList ++
    (enabled.map fun tokens => (ascii "enabled", .array (tokens.map .string))).toList

/-- The list that a scanner found, if there was one. -/
def Scan.listed (scan : Scan) : Option (List Bytes) :=
  if scan.enabledSeen then some scan.enabled else none

theorem encodeTokens_eq (output : Bytes) (tokens : List Bytes) :
    encodeTokens output tokens =
      output ++ Json.commas (tokens.map fun token => Json.quoted (plainBody token)) := by
  induction tokens generalizing output with
  | nil => simp [encodeTokens, Json.commas]
  | cons token rest ih =>
      cases rest with
      | nil => simp [encodeTokens, appendJsonToken, Json.commas, quoted_plainBody]
      | cons next others =>
          rw [encodeTokens, ih]
          · simp [appendJsonToken, Json.commas_cons, quoted_plainBody]
          · simp

/-- The text of `encodeJson` is that of the tree. -/
theorem encodeJson_eq_render (profile : Option Bytes) (enabled : List Bytes) (enabledSeen : Bool) :
    encodeJson profile enabled enabledSeen =
      Json.render (.object (written profile (if enabledSeen then some enabled else none))) := by
  have hstring : ∀ text : Bytes, Json.render (.string (plainBody text)) = 34 :: (text ++ [34]) :=
    quoted_plainBody
  have hprofile : Json.entry (plainBody (ascii "profile")) = fun text => ascii "\"profile\":" ++ text := by
    funext text
    rw [Json.entry, quoted_plainBody]
    rfl
  have henabled : Json.entry (plainBody (ascii "enabled")) = fun text => ascii "\"enabled\":" ++ text := by
    funext text
    rw [Json.entry, quoted_plainBody]
    rfl
  cases profile <;> cases enabledSeen <;>
    simp only [encodeJson, written, Json.render_object, Json.render_array, hprofile, henabled,
      hstring, Json.commas, appendJsonToken, encodeTokens_eq, quoted_plainBody, Function.comp_def,
      Option.map_none, Option.map_some, Option.toList_none, Option.toList_some, Option.isSome_none,
      Option.isSome_some, List.map_cons, List.map_nil, List.map_map, List.nil_append,
      List.cons_append, List.append_nil, List.append_assoc, Bool.false_eq_true, if_true, if_false] <;>
    rfl

/-! ## Reading it back -/

theorem readString_plainBody (text : Bytes) :
    readString (plainBody text) = if Utf8.valid text then some text else none := by
  rw [readString, Json.decode_plainBody]
  by_cases h : Utf8.valid text = true <;> simp [h]

theorem readString_ascii {text : Bytes} (h : ∀ byte ∈ text, byte ≤ 0x7F) :
    readString (plainBody text) = some text := by
  rw [readString_plainBody, if_pos (Utf8.valid_of_ascii h)]

/-- A token is ASCII without quotes, backslashes and control bytes. -/
theorem tokenByte_plain {byte : UInt8} (h : tokenByte byte = true) :
    byte ≤ 0x7F ∧ (Chunk.plain byte).wellFormed = true := by
  have hall : ∀ n < 256, tokenByte (UInt8.ofNat n) = true →
      UInt8.ofNat n ≤ 0x7F ∧ (Chunk.plain (UInt8.ofNat n)).wellFormed = true := by
    decide +kernel
  have hbyte := hall byte.toNat byte.toNat_lt
  rw [UInt8.ofNat_toNat] at hbyte
  exact hbyte h

theorem isToken_ascii {token : Bytes} (h : isToken token = true) : ∀ byte ∈ token, byte ≤ 0x7F := by
  intro byte hmem
  rw [isToken, Bool.and_eq_true, List.all_eq_true] at h
  exact (tokenByte_plain (h.2 byte hmem)).1

theorem dynamicValue_string (body : List Chunk) :
    (Value.string body).fold dynamicValue = (readString body).map .string := rfl

theorem dynamicValue_array (items : List (Value (List Chunk))) :
    (Value.array items).fold dynamicValue =
      ((items.map (Value.fold dynamicValue)).mapM id).map .array := by
  rw [Value.fold_array]
  rfl

theorem dynamicValue_object (members : List (List Chunk × Value (List Chunk))) :
    (Value.object members).fold dynamicValue =
      match (members.map fun member => (member.1, member.2.fold dynamicValue)).mapM readMember with
      | some found => if (found.map Prod.fst).Nodup then some (.object found) else none
      | none => none := by
  rw [Value.fold_object]
  rfl

theorem mapM_readTokens {tokens : List Bytes} (h : ∀ token ∈ tokens, isToken token = true) :
    (tokens.map fun token => (Value.string (plainBody token)).fold dynamicValue).mapM id =
      some (tokens.map Value.string) := by
  induction tokens with
  | nil => rfl
  | cons token tokens ih =>
      obtain ⟨htoken, htokens⟩ := List.forall_mem_cons.mp h
      rw [List.map_cons, List.mapM_cons, ih htokens, dynamicValue_string,
        readString_ascii (isToken_ascii htoken)]
      rfl

/-- The tree means the object, unless the profile is not UTF-8. -/
theorem fold_written {profile : Option Bytes} {enabled : Option (List Bytes)}
    (htokens : ∀ tokens ∈ enabled, ∀ token ∈ tokens, isToken token = true) :
    (Value.object (written profile enabled)).fold dynamicValue =
      if ∀ name ∈ profile, Utf8.valid name = true then some (.object (declaredObject profile enabled))
      else none := by
  have hprofile : readString (plainBody (ascii "profile")) = some (ascii "profile") :=
    readString_ascii (by decide +kernel)
  have henabled : readString (plainBody (ascii "enabled")) = some (ascii "enabled") :=
    readString_ascii (by decide +kernel)
  have hne : ascii "profile" ≠ ascii "enabled" := by decide +kernel
  have hlist : ∀ tokens ∈ enabled,
      (Value.array (tokens.map fun token => .string (plainBody token))).fold dynamicValue =
        some (.array (tokens.map .string)) := by
    intro tokens hmem
    rw [dynamicValue_array, List.map_map]
    simpa [Function.comp_def] using mapM_readTokens (htokens tokens hmem)
  rw [dynamicValue_object]
  cases profile with
  | none =>
      cases enabled with
      | none => simp [written, declaredObject]
      | some tokens =>
          simp [written, declaredObject, readMember, henabled, hlist tokens rfl]
  | some name =>
      by_cases hvalid : Utf8.valid name = true
      · cases enabled with
        | none =>
            simp [written, declaredObject, readMember, hprofile, dynamicValue_string,
              readString_plainBody, hvalid]
        | some tokens =>
            simp [written, declaredObject, readMember, hprofile, henabled, dynamicValue_string,
              readString_plainBody, hvalid, hlist tokens rfl, hne]
      · cases enabled with
        | none =>
            simp [written, readMember, hprofile, dynamicValue_string, readString_plainBody, hvalid]
        | some tokens =>
            simp [written, readMember, hprofile, dynamicValue_string, readString_plainBody, hvalid]

/-- The bytes of a profile that keep the text a JSON text. -/
def PlainProfile (profile : Option Bytes) : Prop :=
  ∀ name ∈ profile, ∀ byte ∈ name, (Chunk.plain byte).wellFormed = true

theorem wellFormed_written {profile : Option Bytes} {enabled : Option (List Bytes)}
    (hprofile : PlainProfile profile)
    (htokens : ∀ tokens ∈ enabled, ∀ token ∈ tokens, isToken token = true) :
    Json.WellFormed (.object (written profile enabled)) := by
  rw [Json.wellFormed_object]
  intro member hmem
  rcases List.mem_append.mp hmem with hleft | hright
  · obtain ⟨name, hname, rfl⟩ := Option.map_eq_some_iff.mp (Option.mem_toList.mp hleft)
    have hkey : ∀ chunk ∈ plainBody (ascii "profile"), chunk.wellFormed = true := by decide +kernel
    exact ⟨hkey, wellFormed_plainBody (hprofile name hname)⟩
  · obtain ⟨tokens, hlist, rfl⟩ := Option.map_eq_some_iff.mp (Option.mem_toList.mp hright)
    have hkey : ∀ chunk ∈ plainBody (ascii "enabled"), chunk.wellFormed = true := by decide +kernel
    refine ⟨hkey, ?_⟩
    rw [Json.wellFormed_array]
    refine List.forall_mem_map.mpr ?_
    intro token hmem
    have htoken := htokens tokens hlist token hmem
    rw [isToken, Bool.and_eq_true, List.all_eq_true] at htoken
    exact wellFormed_plainBody fun byte hbyte => (tokenByte_plain (htoken.2 byte hbyte)).2

/-- **The text means the object it was written for**, unless the profile is not UTF-8. -/
theorem parseFromSlice_encodeJson {scan : Scan} (hprofile : PlainProfile scan.profile)
    (htokens : ∀ token ∈ scan.enabled, isToken token = true) :
    parseFromSlice (encodeJson scan.profile scan.enabled scan.enabledSeen) =
      if ∀ name ∈ scan.profile, Utf8.valid name = true then
        some (.object (declaredObject scan.profile scan.listed))
      else none := by
  have hlisted : ∀ tokens ∈ scan.listed, ∀ token ∈ tokens, isToken token = true := by
    intro tokens hmem
    simp only [Scan.listed, Option.mem_def, Option.ite_none_right_eq_some, Option.some.injEq] at hmem
    exact hmem.2 ▸ htokens
  have hparse := Json.parse_render (wellFormed_written hprofile hlisted)
  rw [encodeJson_eq_render, ← Scan.listed, parseFromSlice, hparse]
  exact fold_written hlisted

/-- A profile without quote and backslash. -/
def CleanProfile (profile : Option Bytes) : Prop :=
  ∀ name ∈ profile, 34 ∉ name ∧ 92 ∉ name

/-- The profile comes first. -/
theorem encodeJson_some (name : Bytes) (enabled : List Bytes) (enabledSeen : Bool) :
    ∃ tail, encodeJson (some name) enabled enabledSeen =
      123 :: (Json.quoted (plainBody (ascii "profile")) ++ 58 :: 34 :: (name ++ 34 :: tail)) := by
  have hopen : ascii "\x7b" ++ ascii "\"profile\":" =
      123 :: (Json.quoted (plainBody (ascii "profile")) ++ [58]) := by decide +kernel
  cases enabledSeen with
  | false =>
      refine ⟨ascii "\x7d", ?_⟩
      simp [encodeJson, appendJsonToken, hopen]
  | true =>
      refine ⟨44 :: (ascii "\"enabled\":[" ++
        Json.commas (enabled.map fun token => Json.quoted (plainBody token)) ++
          ascii "]" ++ ascii "\x7d"), ?_⟩
      simp [encodeJson, appendJsonToken, encodeTokens_eq, hopen]

/-- A clean profile with a control byte breaks the text. -/
theorem plainProfile_of_parseFromSlice {scan : Scan} {result : Value Bytes}
    (hclean : CleanProfile scan.profile)
    (h : parseFromSlice (encodeJson scan.profile scan.enabled scan.enabledSeen) = some result) :
    PlainProfile scan.profile := by
  intro name hname byte hbyte
  obtain ⟨hquote, hslash⟩ := hclean name hname
  by_contra hbad
  have hcontrol : ¬(name.all fun byte => 32 ≤ byte) = true := by
    intro hall
    apply hbad
    have hlow := List.all_eq_true.mp hall byte hbyte
    have hne : byte ≠ 34 ∧ byte ≠ 92 :=
      ⟨fun heq => hquote (heq ▸ hbyte), fun heq => hslash (heq ▸ hbyte)⟩
    simpa [Chunk.wellFormed, hne] using hlow
  obtain ⟨tail, htail⟩ := encodeJson_some name scan.enabled scan.enabledSeen
  have hscan := Json.scanString_plain hquote hslash tail
  rw [if_neg hcontrol] at hscan
  have hkey : ∀ chunk ∈ plainBody (ascii "profile"), chunk.wellFormed = true := by decide +kernel
  have hparse := Json.parse_of_broken_string hkey hscan
  rw [Option.mem_def.mp hname, htail] at h
  simp only [parseFromSlice, hparse, reduceCtorEq] at h

/-- **A clean profile is read back or refused.** -/
theorem object_of_parseFromSlice {scan : Scan} {result : Value Bytes}
    (hclean : CleanProfile scan.profile) (htokens : ∀ token ∈ scan.enabled, isToken token = true)
    (h : parseFromSlice (encodeJson scan.profile scan.enabled scan.enabledSeen) = some result) :
    result = .object (declaredObject scan.profile scan.listed) := by
  have hplain := plainProfile_of_parseFromSlice hclean h
  rw [parseFromSlice_encodeJson hplain htokens] at h
  split at h
  · exact (Option.some.inj h).symm
  · cases h

end Ubiq.Config
