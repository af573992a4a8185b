import Ubiq.Foundation.Base64
import Ubiq.Foundation.Json
import Mathlib.Data.List.TakeWhile

/-!
# Strings and raw messages of `encoding/json`

How Go's `encoding/json` writes strings, byte slices, integers and raw messages, and reads them
back. A string loses nothing but its invalid bytes: `unquote_quote`. A raw message is written
without white space and with the HTML characters escaped; written again it stays as it is:
`compacted_compacted`.
-/

namespace Ubiq.Foundation.GoJson

open Json (Chunk Value)

def maxNestingDepth : Nat := 10000

/-- The scanner of `encoding/json`: the grammar, and the limit on nesting. -/
def scan (text : Bytes) : Option (Value (List Chunk)) :=
  (Json.parse text).filter fun value => value.depth ≤ maxNestingDepth

def valid (text : Bytes) : Bool := (scan text).isSome

/-! ## Strings -/

/-- The escape of a byte with two hexadecimal digits. -/
def hexEscape (byte : UInt8) : Chunk :=
  .code 48 48 (Numeral.digitByte (byte.toNat / 16)) (Numeral.digitByte (byte.toNat % 16))

/-- `<`, `>` and `&`. -/
def isHtml (byte : UInt8) : Bool := byte = 60 || byte = 62 || byte = 38

/-- An ASCII byte as `Marshal` writes it in a string. -/
def quoteByte (byte : UInt8) : Chunk :=
  if byte = 34 || byte = 92 then .short byte
  else if byte = 8 then .short 98
  else if byte = 12 then .short 102
  else if byte = 10 then .short 110
  else if byte = 13 then .short 114
  else if byte = 9 then .short 116
  else if byte < 32 || isHtml byte then hexEscape byte
  else .plain byte

/-- The escapes of U+2028 and U+2029, by the last byte of the character. -/
def separatorEscape (last : UInt8) : Chunk :=
  .code 50 48 50 (if last = 0xA8 then 56 else 57)

/-- The last byte of U+2028 or U+2029. -/
def isSeparator (last : UInt8) : Bool := last = 0xA8 || last = 0xA9

/-- A character of a string as `Marshal` writes it. -/
def quoteCharacter (char : Utf8.Character) : List Chunk :=
  match char.bytes with
  | [byte] => [quoteByte byte]
  | [a, b, c] =>
      if a = 0xE2 ∧ b = 0x80 ∧ isSeparator c then [separatorEscape c]
      else Json.plainBody [a, b, c]
  | bytes => Json.plainBody bytes

/-- The body of a string as `Marshal` writes it: an invalid byte becomes the three bytes of
U+FFFD. -/
def quote (text : Bytes) : List Chunk :=
  (Utf8.pieces text).flatMap fun piece => quoteCharacter piece.repaired

/-- The string of a body as `Unmarshal` reads it: half a surrogate pair and every invalid byte
become U+FFFD. -/
def unquote (body : List Chunk) : Option Bytes :=
  (Json.decode (some Utf8.replacement.bytes) body).map Utf8.repair

/-- The bytes of a chunk that is no half of a surrogate pair. -/
def chunkBytes : Chunk → Bytes
  | .plain byte => [byte]
  | .short letter => [Json.shortByte letter]
  | .code a b c d => Utf8.encode (Json.codeUnit a b c d)

/-- The chunk stands for itself, whatever follows. -/
def isWhole : Chunk → Bool
  | .code a b c d => !Json.isHigh (Json.codeUnit a b c d) && !Json.isLow (Json.codeUnit a b c d)
  | _ => true

theorem decode_whole (lone : Option Bytes) {chunk : Chunk} (h : isWhole chunk = true)
    (rest : List Chunk) :
    Json.decode lone (chunk :: rest) = Json.emit (chunkBytes chunk) (Json.decode lone rest) := by
  cases chunk with
  | plain byte => rfl
  | short letter => rfl
  | code a b c d =>
      simp only [isWhole, Bool.and_eq_true, Bool.not_eq_true'] at h
      exact Json.decode_code lone h.1 h.2 rest

theorem quoteByte_spec {byte : UInt8} (h : byte ≤ 0x7F) :
    isWhole (quoteByte byte) = true ∧ chunkBytes (quoteByte byte) = [byte] ∧
      (quoteByte byte).wellFormed = true := by
  have hall : ∀ n < 128, isWhole (quoteByte (UInt8.ofNat n)) = true ∧
      chunkBytes (quoteByte (UInt8.ofNat n)) = [UInt8.ofNat n] ∧
      (quoteByte (UInt8.ofNat n)).wellFormed = true := by
    decide +kernel
  have hlt : byte.toNat < 128 := Nat.lt_succ_of_le (UInt8.le_iff_toNat_le.mp h)
  have hbyte := hall byte.toNat hlt
  rwa [UInt8.ofNat_toNat] at hbyte

theorem separatorEscape_spec {last : UInt8} (h : isSeparator last = true) :
    isWhole (separatorEscape last) = true ∧
      chunkBytes (separatorEscape last) = [0xE2, 0x80, last] ∧
      (separatorEscape last).wellFormed = true := by
  simp only [isSeparator, Bool.or_eq_true, decide_eq_true_eq] at h
  rcases h with rfl | rfl <;> decide +kernel

theorem decode_quoteCharacter (lone : Option Bytes) (char : Utf8.Character) (rest : List Chunk) :
    Json.decode lone (quoteCharacter char ++ rest) =
      Json.emit char.bytes (Json.decode lone rest) := by
  obtain ⟨bytes, hbytes⟩ := char
  unfold quoteCharacter
  dsimp only
  split
  · rename_i byte
    have hspec := quoteByte_spec (by simpa [Utf8.isCharacter] using hbytes)
    rw [List.singleton_append, decode_whole lone hspec.1, hspec.2.1]
  · rename_i a b c
    split
    · rename_i hsep
      obtain ⟨rfl, rfl, hlast⟩ := hsep
      have hspec := separatorEscape_spec hlast
      rw [List.singleton_append, decode_whole lone hspec.1, hspec.2.1]
    · exact Json.decode_plainBody_append lone _ rest
  · exact Json.decode_plainBody_append lone _ rest

theorem decode_quote (lone : Option Bytes) (text : Bytes) :
    Json.decode lone (quote text) = some (Utf8.repair text) := by
  unfold quote Utf8.repair
  induction Utf8.pieces text with
  | nil => rfl
  | cons piece rest ih =>
      rw [List.flatMap_cons, decode_quoteCharacter, ih, List.flatMap_cons]
      rfl

/-- A string is written as its repaired form is. -/
theorem quote_repair (text : Bytes) : quote (Utf8.repair text) = quote text := by
  rw [quote, Utf8.pieces_repair, List.flatMap_map]
  rfl

/-- **A string loses only its invalid bytes.** -/
theorem unquote_quote (text : Bytes) : unquote (quote text) = some (Utf8.repair text) := by
  rw [unquote, decode_quote, Option.map_some, Utf8.repair_repair]

theorem unquote_plainBody {text : Bytes} (h : ∀ byte ∈ text, byte ≤ 0x7F) :
    unquote (Json.plainBody text) = some text := by
  rw [unquote, Json.decode_plainBody, Option.map_some,
    Utf8.repair_of_valid (Utf8.valid_of_ascii h)]

/-- A byte outside ASCII stands for itself. -/
theorem wellFormed_high {byte : UInt8} (h : 0x80 ≤ byte) : (Chunk.plain byte).wellFormed = true := by
  have hge := UInt8.le_iff_toNat_le.mp h
  have hne : ∀ other : UInt8, other.toNat < 128 → byte ≠ other := by
    rintro other hlt rfl
    exact absurd (Nat.lt_of_lt_of_le hlt hge) (Nat.lt_irrefl _)
  simp only [Chunk.wellFormed, Bool.and_eq_true, decide_eq_true_eq, ne_eq]
  exact ⟨⟨UInt8.le_trans (by decide) h, hne 34 (by decide)⟩, hne 92 (by decide)⟩

theorem wellFormed_quoteCharacter (char : Utf8.Character) :
    ∀ chunk ∈ quoteCharacter char, chunk.wellFormed = true := by
  intro chunk hpiece
  obtain ⟨bytes, hbytes⟩ := char
  unfold quoteCharacter at hpiece
  dsimp only at hpiece
  split at hpiece
  · rename_i byte
    have hspec := quoteByte_spec (by simpa [Utf8.isCharacter] using hbytes)
    rw [List.mem_singleton.mp hpiece]
    exact hspec.2.2
  · rename_i a b c
    split at hpiece
    · rename_i hsep
      rw [List.mem_singleton.mp hpiece]
      exact (separatorEscape_spec hsep.2.2).2.2
    · exact Json.wellFormed_plainBody
        (fun byte hbyte => wellFormed_high (Utf8.high_of_isCharacter hbytes (by simp) byte hbyte))
        chunk hpiece
  · rename_i hone hthree
    refine Json.wellFormed_plainBody
      (fun byte hbyte => wellFormed_high (Utf8.high_of_isCharacter hbytes ?_ byte hbyte))
      chunk hpiece
    intro hlen
    obtain ⟨byte, rfl⟩ := List.length_eq_one_iff.mp hlen
    exact hone byte rfl

/-- Every chunk of a written string keeps to the grammar. -/
theorem wellFormed_quote (text : Bytes) : ∀ chunk ∈ quote text, chunk.wellFormed = true := by
  intro chunk hmem
  obtain ⟨piece, -, hpiece⟩ := List.mem_flatMap.mp hmem
  exact wellFormed_quoteCharacter piece.repaired chunk hpiece

theorem length_quoteCharacter (char : Utf8.Character) :
    char.bytes.length ≤ ((quoteCharacter char).flatMap Chunk.text).length := by
  have hchunk : ∀ chunk : Chunk, 1 ≤ chunk.text.length := by
    intro chunk
    cases chunk <;> simp [Chunk.text]
  have hplain : ∀ bytes : Bytes, bytes.length ≤
      ((Json.plainBody bytes).flatMap Chunk.text).length := fun bytes =>
    (congrArg List.length (Json.bodyText_plainBody bytes)).ge
  unfold quoteCharacter
  split
  · next byte hbytes => simpa [hbytes] using hchunk (quoteByte byte)
  · next a b c hbytes =>
      rw [hbytes]
      split
      · simp [separatorEscape, Chunk.text]
      · exact hplain [a, b, c]
  · exact hplain char.bytes

theorem length_pieceBytes_le (piece : Utf8.Piece) :
    piece.bytes.length ≤ piece.repaired.bytes.length := by
  cases piece with
  | stray byte => exact Nat.le_add_left 1 2
  | character char => exact Nat.le_refl _

/-- A written string is at least as long as the string. -/
theorem length_le_quote (text : Bytes) : text.length ≤ (Json.bodyText (quote text)).length := by
  conv_lhs => rw [← Utf8.flatMap_pieces text]
  unfold quote Json.bodyText
  induction Utf8.pieces text with
  | nil => exact Nat.le_refl 0
  | cons piece rest ih =>
      have hpiece := (length_pieceBytes_le piece).trans (length_quoteCharacter piece.repaired)
      simp only [List.flatMap_cons, List.flatMap_append, List.length_append] at ih ⊢
      omega

/-! ## Raw messages -/

/-- A chunk in front of an escaped body. -/
def escapeChunk (chunk : Chunk) (rest : List Chunk) : List Chunk :=
  match chunk with
  | .plain byte =>
      if isHtml byte then hexEscape byte :: rest
      else if byte = 0xE2 then
        match rest with
        | .plain second :: .plain last :: more =>
            if second = 0x80 ∧ isSeparator last then separatorEscape last :: more
            else .plain byte :: rest
        | _ => .plain byte :: rest
      else .plain byte :: rest
  | chunk => chunk :: rest

/-- The escapes of `compact` in a string: HTML characters, U+2028 and U+2029. -/
def escapeBody (body : List Chunk) : List Chunk :=
  body.foldr escapeChunk []

theorem escapeBody_cons (chunk : Chunk) (body : List Chunk) :
    escapeBody (chunk :: body) = escapeChunk chunk (escapeBody body) := rfl

theorem hexEscape_spec {byte : UInt8} (h : isHtml byte = true) :
    (hexEscape byte).wellFormed = true := by
  simp only [isHtml, Bool.or_eq_true, decide_eq_true_eq] at h
  rcases h with (rfl | rfl) | rfl <;> decide

/-- What an escaped chunk can be. -/
theorem escapeChunk_cases (chunk : Chunk) (rest : List Chunk) :
    (∃ byte, chunk = .plain byte ∧ isHtml byte = true ∧
      escapeChunk chunk rest = hexEscape byte :: rest) ∨
    (∃ last more, rest = .plain 0x80 :: .plain last :: more ∧ isSeparator last = true ∧
      escapeChunk chunk rest = separatorEscape last :: more) ∨
    escapeChunk chunk rest = chunk :: rest := by
  unfold escapeChunk
  split
  · rename_i byte
    split
    · rename_i hhtml
      exact Or.inl ⟨byte, rfl, hhtml, rfl⟩
    · split
      · split
        · rename_i second last more
          split
          · rename_i hsep
            exact Or.inr (Or.inl ⟨last, more, by rw [hsep.1], hsep.2, rfl⟩)
          · exact Or.inr (Or.inr rfl)
        · exact Or.inr (Or.inr rfl)
      · exact Or.inr (Or.inr rfl)
  · exact Or.inr (Or.inr rfl)

theorem wellFormed_escapeBody {body : List Chunk} (h : ∀ chunk ∈ body, chunk.wellFormed = true) :
    ∀ chunk ∈ escapeBody body, chunk.wellFormed = true := by
  induction body with
  | nil => exact h
  | cons chunk body ih =>
      obtain ⟨hchunk, hbody⟩ := List.forall_mem_cons.mp h
      have hrest := ih hbody
      rw [escapeBody_cons]
      rcases escapeChunk_cases chunk (escapeBody body) with
        ⟨byte, -, hhtml, heq⟩ | ⟨last, more, hmore, hsep, heq⟩ | heq
      · rw [heq]
        exact List.forall_mem_cons.mpr ⟨hexEscape_spec hhtml, hrest⟩
      · rw [heq]
        rw [hmore] at hrest
        refine List.forall_mem_cons.mpr ⟨(separatorEscape_spec hsep).2.2, ?_⟩
        exact fun c hc => hrest c (List.mem_cons_of_mem _ (List.mem_cons_of_mem _ hc))
      · rw [heq]
        exact List.forall_mem_cons.mpr ⟨hchunk, hrest⟩

/-- An escape is not escaped again. -/
theorem escapeBody_escapeBody (body : List Chunk) :
    escapeBody (escapeBody body) = escapeBody body := by
  induction body with
  | nil => rfl
  | cons chunk body ih =>
      rw [escapeBody_cons]
      rcases escapeChunk_cases chunk (escapeBody body) with
        ⟨byte, -, hhtml, heq⟩ | ⟨last, more, hmore, hsep, heq⟩ | heq
      · rw [heq, escapeBody_cons, ih]
        rfl
      · -- the two bytes behind were left alone, so the rest behind them is escaped
        have htail : escapeBody more = more := by
          have hlast : isHtml last = false ∧ last ≠ 0xE2 := by
            simp only [isSeparator, Bool.or_eq_true, decide_eq_true_eq] at hsep
            rcases hsep with rfl | rfl <;> decide
          have hkeep : escapeChunk (.plain last) (escapeBody more) = .plain last :: escapeBody more := by
            simp [escapeChunk, hlast]
          rw [hmore, escapeBody_cons, escapeBody_cons, hkeep] at ih
          have hstep : escapeChunk (.plain 0x80) (.plain last :: escapeBody more) =
              .plain 0x80 :: .plain last :: escapeBody more := rfl
          rw [hstep] at ih
          injection ih with _ ih
          injection ih
        rw [heq, escapeBody_cons, htail]
        rfl
      · rw [heq, escapeBody_cons, ih, heq]

/-- `compact` with the escapes, at each constructor. -/
def compaction : Json.Algebra (List Chunk) (Value (List Chunk)) where
  null := .null
  bool := .bool
  number := .number
  string body := .string (escapeBody body)
  array := .array
  object members := .object (members.map fun member => (escapeBody member.1, member.2))

/-- A raw message as `Marshal` writes it, with the white space left to the printer. -/
def compacted (value : Value (List Chunk)) : Value (List Chunk) := value.fold compaction

theorem compacted_array (items : List (Value (List Chunk))) :
    compacted (.array items) = .array (items.map compacted) := by
  rw [compacted, Value.fold_array]
  rfl

theorem compacted_object (members : List (List Chunk × Value (List Chunk))) :
    compacted (.object members) =
      .object (members.map fun member => (escapeBody member.1, compacted member.2)) := by
  simp only [compacted, Value.fold_object, compaction, List.map_map]
  rfl

theorem depth_compacted (value : Value (List Chunk)) : (compacted value).depth = value.depth := by
  induction value using Value.induction with
  | null => rfl
  | bool b => rfl
  | number text => rfl
  | string body => rfl
  | array items ih =>
      have hsame : items.map (Value.depth ∘ compacted) = items.map Value.depth :=
        List.map_congr_left ih
      rw [compacted_array, Value.depth_array, Value.depth_array, Value.depths, Value.depths,
        List.map_map, hsame]
  | object members ih =>
      rw [compacted_object, Value.depth_object, Value.depth_object, Value.depths, Value.depths]
      simp only [List.map_map, Function.comp_def]
      rw [List.map_congr_left ih]

theorem wellFormed_compacted {value : Value (List Chunk)} :
    Json.WellFormed value → Json.WellFormed (compacted value) := by
  induction value using Value.induction with
  | null => exact id
  | bool b => exact id
  | number text => exact id
  | string body => exact fun h => wellFormed_escapeBody h
  | array items ih =>
      intro h
      rw [Json.wellFormed_array] at h
      rw [compacted_array, Json.wellFormed_array]
      exact List.forall_mem_map.mpr fun item hitem => ih item hitem (h item hitem)
  | object members ih =>
      intro h
      rw [Json.wellFormed_object] at h
      rw [compacted_object, Json.wellFormed_object]
      refine List.forall_mem_map.mpr fun member hmember => ?_
      exact ⟨wellFormed_escapeBody (h member hmember).1, ih member hmember (h member hmember).2⟩

/-- **A raw message that was written once is written as it is.** -/
theorem compacted_compacted (value : Value (List Chunk)) :
    compacted (compacted value) = compacted value := by
  induction value using Value.induction with
  | null => rfl
  | bool b => rfl
  | number text => rfl
  | string body => exact congrArg Value.string (escapeBody_escapeBody body)
  | array items ih =>
      have hsame : items.map (compacted ∘ compacted) = items.map compacted := List.map_congr_left ih
      rw [compacted_array, compacted_array, List.map_map, hsame]
  | object members ih =>
      rw [compacted_object, compacted_object, List.map_map]
      congr 1
      refine List.map_congr_left fun member hmember => ?_
      simp only [Function.comp_apply, escapeBody_escapeBody, ih member hmember]

/-! ## Integers -/

/-- The values of `int64`. -/
def IsInt64 (value : Int) : Prop := -(2 ^ 63) ≤ value ∧ value < 2 ^ 63

instance decidableIsInt64 (value : Int) : Decidable (IsInt64 value) :=
  inferInstanceAs (Decidable (_ ∧ _))

/-- The decimal text of an integer. -/
def intText (value : Int) : Bytes :=
  if value < 0 then 45 :: Numeral.digits 10 value.natAbs else Numeral.digits 10 value.natAbs

/-- `strconv.ParseInt` for `int64`, on the text of a JSON number. -/
def parseInt64 (text : Bytes) : Option Int :=
  match text with
  | [] => none
  | c :: rest =>
      if c = 45 then (Numeral.accumulate 10 (2 ^ 63 + 1) 0 rest).map fun value => -(value : Int)
      else (Numeral.accumulate 10 (2 ^ 63) 0 (c :: rest)).map fun value => (value : Int)

theorem digitByte_isDigit {digit : Nat} (h : digit < 10) :
    Json.isDigit (Numeral.digitByte digit) = true := by
  have hall : ∀ d < 10, Json.isDigit (Numeral.digitByte d) = true := by decide
  exact hall digit h

theorem digits_isDigit (value : Nat) : ∀ c ∈ Numeral.digits 10 value, Json.isDigit c = true := by
  intro c hc
  obtain ⟨digit, hdigit, rfl⟩ := Numeral.mem_digits (by decide) hc
  exact digitByte_isDigit hdigit

/-- A number does not begin with a zero. -/
theorem head_digits {value : Nat} (h : 0 < value) : (Numeral.digits 10 value).head? ≠ some 48 := by
  induction value using Nat.base_induction 10 (by decide) with
  | single value hvalue =>
      have hall : ∀ d < 10, 0 < d → Numeral.digitByte d ≠ 48 := by decide
      rw [Numeral.digits_of_lt_base hvalue]
      simpa using hall value hvalue h
  | digit value digit hdigit hvalue ih =>
      rw [Numeral.digits_snoc (by decide) hvalue hdigit,
        List.head?_append_of_ne_nil _ (Numeral.digits_ne_nil 10 value)]
      exact ih hvalue

theorem isUnsigned_digits (value : Nat) : Json.isUnsigned (Numeral.digits 10 value) = true := by
  have hall := digits_isDigit value
  have htake : (Numeral.digits 10 value).takeWhile Json.isDigit = Numeral.digits 10 value :=
    List.takeWhile_eq_self_iff.mpr hall
  have hdrop : (Numeral.digits 10 value).dropWhile Json.isDigit = [] :=
    List.dropWhile_eq_nil_iff.mpr hall
  have hdigits : Json.isDigits (Numeral.digits 10 value) = true := by
    simp only [Json.isDigits, Bool.and_eq_true, decide_eq_true_eq, ne_eq]
    exact ⟨Numeral.digits_ne_nil 10 value, List.all_eq_true.mpr hall⟩
  rw [Json.isUnsigned, htake, hdrop]
  rcases Nat.eq_zero_or_pos value with rfl | hpos
  · decide
  · simp [hdigits, head_digits hpos, Json.isFraction]

theorem digits_cons (value : Nat) :
    ∃ c rest, Numeral.digits 10 value = c :: rest ∧ c ≠ 45 := by
  cases hdigits : Numeral.digits 10 value with
  | nil => exact absurd hdigits (Numeral.digits_ne_nil 10 value)
  | cons c rest =>
      have hc := digits_isDigit value c (by simp [hdigits])
      refine ⟨c, rest, rfl, ?_⟩
      rintro rfl
      exact absurd hc (by decide)

theorem isNumber_intText (value : Int) :
    Json.isNumber (intText value) = true ∧ (intText value).all Json.isNumeric = true := by
  have hnumeric : (Numeral.digits 10 value.natAbs).all Json.isNumeric = true := by
    rw [List.all_eq_true]
    intro c hc
    simp [Json.isNumeric, digits_isDigit _ c hc]
  have hunsigned := isUnsigned_digits value.natAbs
  unfold intText
  split
  · exact ⟨by simpa [Json.isNumber] using hunsigned, by simpa [Json.isNumeric] using hnumeric⟩
  · obtain ⟨c, rest, hcons, hne⟩ := digits_cons value.natAbs
    refine ⟨?_, hnumeric⟩
    rw [hcons] at hunsigned ⊢
    simpa [Json.isNumber, hne] using hunsigned

/-- **An integer is read back.** -/
theorem parseInt64_intText {value : Int} (h : IsInt64 value) :
    parseInt64 (intText value) = some value := by
  obtain ⟨hlow, hhigh⟩ := h
  unfold intText
  split
  · rename_i hneg
    have hread : Numeral.accumulate 10 (2 ^ 63 + 1) 0 (Numeral.digits 10 value.natAbs) =
        some value.natAbs := Numeral.accumulate_digits (by decide) (by decide) (by omega)
    have hvalue : -(value.natAbs : Int) = value := by omega
    simp only [parseInt64, if_true, hread]
    exact congrArg some hvalue
  · rename_i hpos
    have hread : Numeral.accumulate 10 (2 ^ 63) 0 (Numeral.digits 10 value.natAbs) =
        some value.natAbs := Numeral.accumulate_digits (by decide) (by decide) (by omega)
    obtain ⟨c, rest, hcons, hne⟩ := digits_cons value.natAbs
    rw [hcons] at hread ⊢
    have hvalue : (value.natAbs : Int) = value := by omega
    simp only [parseInt64, if_neg hne, hread]
    exact congrArg some hvalue

/-! ## Values -/

/-- A string. -/
def stringValue (text : Bytes) : Value (List Chunk) := .string (quote text)

/-- An `int64`. -/
def intValue (value : Int) : Value (List Chunk) := .number (intText value)

/-- A byte slice; a nil slice is `null`. -/
def bytesValue (bytes : Bytes) : Value (List Chunk) :=
  if bytes = [] then .null else .string (Json.plainBody (Base64.encode bytes))

/-- `Unmarshal` into a string that holds `old`; `null` leaves it. -/
def readString (old : Bytes) : Value (List Chunk) → Option Bytes
  | .string body => unquote body
  | .null => some old
  | _ => none

/-- `Unmarshal` into an `int64` that holds `old`. -/
def readInt64 (old : Int) : Value (List Chunk) → Option Int
  | .number text => parseInt64 text
  | .null => some old
  | _ => none

/-- `Unmarshal` into one byte. -/
def readByte : Value (List Chunk) → Option UInt8
  | .number text =>
      match parseInt64 text with
      | some value => if 0 ≤ value ∧ value < 256 then some (UInt8.ofNat value.toNat) else none
      | none => none
  | .null => some 0
  | _ => none

/-- `Unmarshal` into a byte slice: Base64, or an array of numbers. -/
def readBytes : Value (List Chunk) → Option Bytes
  | .string body => (unquote body).bind Base64.decode
  | .array items => items.mapM readByte
  | .null => some []
  | _ => none

theorem readString_stringValue (old text : Bytes) :
    readString old (stringValue text) = some (Utf8.repair text) :=
  unquote_quote text

theorem readInt64_intValue (old : Int) {value : Int} (h : IsInt64 value) :
    readInt64 old (intValue value) = some value :=
  parseInt64_intText h

/-- Base64 is ASCII without quotes and backslashes. -/
theorem written_plain {c : UInt8} (h : Base64.Written c) :
    c ≤ 0x7F ∧ (Chunk.plain c).wellFormed = true := by
  have hall : ∀ value < 64, Base64.letter value ≤ 0x7F ∧
      (Chunk.plain (Base64.letter value)).wellFormed = true := by decide +kernel
  rcases h with rfl | ⟨value, hvalue, rfl⟩
  · decide
  · exact hall value hvalue

theorem readBytes_bytesValue (bytes : Bytes) : readBytes (bytesValue bytes) = some bytes := by
  unfold bytesValue
  split
  · rename_i hnil
    rw [hnil]
    rfl
  · have hascii : ∀ c ∈ Base64.encode bytes, c ≤ 0x7F :=
      fun c hc => (written_plain (Base64.written_encode bytes c hc)).1
    rw [readBytes, unquote_plainBody hascii, Option.bind_some, Base64.decode_of_encode]

theorem wellFormed_stringValue (text : Bytes) : Json.WellFormed (stringValue text) :=
  wellFormed_quote text

theorem wellFormed_intValue (value : Int) : Json.WellFormed (intValue value) :=
  isNumber_intText value

theorem wellFormed_bytesValue (bytes : Bytes) : Json.WellFormed (bytesValue bytes) := by
  unfold bytesValue
  split
  · trivial
  · exact Json.wellFormed_plainBody
      fun c hc => (written_plain (Base64.written_encode bytes c hc)).2

end Ubiq.Foundation.GoJson
