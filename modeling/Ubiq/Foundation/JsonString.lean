import Ubiq.Foundation.Numeral
import Ubiq.Foundation.Utf8

/-!
# The strings of JSON

The body of a string literal is a list of chunks: bytes that stand for themselves, escapes of two
bytes and escapes `\u` with four hexadecimal digits. `scanString` reads a body up to the closing
quote and keeps it as it is written; `decode` gives the bytes that it means.
-/

namespace Ubiq.Foundation.Json

/-- A piece of the body of a string. -/
inductive Chunk
  | plain (byte : UInt8)
  | short (letter : UInt8)
  | code (a b c d : UInt8)
deriving DecidableEq, Repr

namespace Chunk

/-- The chunk as it is written. -/
def text : Chunk → Bytes
  | plain byte => [byte]
  | short letter => [92, letter]
  | code a b c d => [92, 117, a, b, c, d]

/-- The grammar of RFC 8259: nothing below a space, no bare quote or backslash. -/
def wellFormed : Chunk → Bool
  | plain byte => 32 ≤ byte && byte ≠ 34 && byte ≠ 92
  | short letter => letter ∈ ascii "\"\\/bfnrt"
  | code a b c d => [a, b, c, d].all fun digit => (Numeral.charToDigit digit 16).isSome

end Chunk

/-- A body as it is written. -/
def bodyText (body : List Chunk) : Bytes :=
  body.flatMap Chunk.text

/-- A body in which every byte stands for itself. -/
def plainBody (text : Bytes) : List Chunk := text.map .plain

/-- A string literal. -/
def quoted (body : List Chunk) : Bytes :=
  34 :: (bodyText body ++ [34])

/-- Put a chunk in front of what was read. -/
def consChunk (chunk : Chunk) (read : Option (List Chunk × Bytes)) : Option (List Chunk × Bytes) :=
  read.map fun (body, rest) => (chunk :: body, rest)

/-- Read a body and its closing quote. -/
def scanString : Bytes → Option (List Chunk × Bytes)
  | [] => none
  | c :: rest =>
      if c = 34 then some ([], rest)
      else if c = 92 then
        match rest with
        | [] => none
        | letter :: rest =>
            if letter = 117 then
              match rest with
              | a :: b :: c :: d :: rest =>
                  if (Chunk.code a b c d).wellFormed then consChunk (.code a b c d) (scanString rest)
                  else none
              | _ => none
            else if (Chunk.short letter).wellFormed then consChunk (.short letter) (scanString rest)
            else none
      else if 32 ≤ c then consChunk (.plain c) (scanString rest)
      else none

/-! ## Plain bodies -/

theorem bodyText_plainBody (text : Bytes) : bodyText (plainBody text) = text := by
  induction text with
  | nil => rfl
  | cons c text ih =>
      rw [plainBody, List.map_cons, bodyText, List.flatMap_cons, ← plainBody, ← bodyText, ih]
      rfl

theorem quoted_plainBody (text : Bytes) : quoted (plainBody text) = 34 :: (text ++ [34]) := by
  rw [quoted, bodyText_plainBody]

variable {text : Bytes} {body : List Chunk}

theorem wellFormed_plainBody (h : ∀ byte ∈ text, (Chunk.plain byte).wellFormed = true) :
    ∀ chunk ∈ plainBody text, chunk.wellFormed = true :=
  List.forall_mem_map.mpr h

/-! ## Scanning -/

theorem consChunk_eq_some {chunk : Chunk} {read : Option (List Chunk × Bytes)} {rest : Bytes}
    (h : consChunk chunk read = some (body, rest)) :
    ∃ tail, read = some (tail, rest) ∧ body = chunk :: tail := by
  obtain ⟨⟨tail, final⟩, hread, heq⟩ := Option.map_eq_some_iff.mp h
  injection heq with hbody hrest
  exact ⟨tail, hrest ▸ hread, hbody.symm⟩

@[simp] theorem scanString_quote (rest : Bytes) : scanString (34 :: rest) = some ([], rest) := by
  rw [scanString.eq_def]
  rfl

/-- A chunk in front of a text is its first chunk. -/
theorem scanString_chunk {chunk : Chunk} (h : chunk.wellFormed = true) (text : Bytes) :
    scanString (chunk.text ++ text) = consChunk chunk (scanString text) := by
  cases chunk with
  | plain byte =>
      simp only [Chunk.wellFormed, Bool.and_eq_true, decide_eq_true_eq, ne_eq] at h
      simp only [Chunk.text, List.singleton_append]
      rw [scanString.eq_def]
      simp only [if_neg h.1.2, if_neg h.2, if_pos h.1.1]
  | short letter =>
      have hu : letter ≠ 117 := by
        rintro rfl
        exact absurd h (by decide)
      simp only [Chunk.text, List.cons_append, List.nil_append]
      rw [scanString.eq_def]
      simp only [if_neg hu, h, if_true]
      rfl
  | code a b c d =>
      simp only [Chunk.text, List.cons_append, List.nil_append]
      rw [scanString.eq_def]
      simp only [h, if_true]
      rfl

/-- **A well-formed body is read back.** -/
theorem scanString_bodyText (h : ∀ chunk ∈ body, chunk.wellFormed = true) (rest : Bytes) :
    scanString (bodyText body ++ 34 :: rest) = some (body, rest) := by
  induction body with
  | nil => exact scanString_quote rest
  | cons chunk body ih =>
      obtain ⟨hchunk, hbody⟩ := List.forall_mem_cons.mp h
      have hread := ih hbody
      simp only [bodyText] at hread
      rw [bodyText, List.flatMap_cons, List.append_assoc, scanString_chunk hchunk, hread]
      rfl

/-- What is read is well formed. -/
theorem wellFormed_of_scanString {rest : Bytes} (h : scanString text = some (body, rest)) :
    ∀ chunk ∈ body, chunk.wellFormed = true := by
  fun_induction scanString text generalizing body with
  | case1 => cases h
  | case2 =>
      cases h
      simp
  | case3 => cases h
  | case4 a b c d more hwell _ ih =>
      obtain ⟨tail, hread, rfl⟩ := consChunk_eq_some h
      exact List.forall_mem_cons.mpr ⟨hwell, ih hread⟩
  | case5 => cases h
  | case6 => cases h
  | case7 letter more hne hwell _ ih =>
      obtain ⟨tail, hread, rfl⟩ := consChunk_eq_some h
      exact List.forall_mem_cons.mpr ⟨hwell, ih hread⟩
  | case8 => cases h
  | case9 c more hquote hslash hlow ih =>
      obtain ⟨tail, hread, rfl⟩ := consChunk_eq_some h
      refine List.forall_mem_cons.mpr ⟨?_, ih hread⟩
      simp [Chunk.wellFormed, hquote, hslash, hlow]
  | case10 => cases h

/-- Bytes that are neither quote nor backslash stand for themselves or are refused. -/
theorem scanString_plain (hquote : 34 ∉ text) (hslash : 92 ∉ text) (rest : Bytes) :
    scanString (text ++ 34 :: rest) =
      if text.all fun byte => 32 ≤ byte then some (plainBody text, rest) else none := by
  induction text with
  | nil => simp [plainBody]
  | cons c text ih =>
      obtain ⟨hc, hquote⟩ := not_or.mp (List.mem_cons.not.mp hquote)
      obtain ⟨hs, hslash⟩ := not_or.mp (List.mem_cons.not.mp hslash)
      rw [List.cons_append, scanString.eq_def]
      simp only [if_neg (Ne.symm hc), if_neg (Ne.symm hs), ih hquote hslash, List.all_cons,
        Bool.and_eq_true, decide_eq_true_eq]
      by_cases hlow : 32 ≤ c <;> by_cases hrest : (text.all fun byte => 32 ≤ byte) = true <;>
        simp [hlow, hrest, consChunk, plainBody]

/-! ## Meaning -/

/-- The byte of a two-byte escape. -/
def shortByte (letter : UInt8) : UInt8 :=
  if letter = 98 then 8
  else if letter = 102 then 12
  else if letter = 110 then 10
  else if letter = 114 then 13
  else if letter = 116 then 9
  else letter

/-- The code unit of four hexadecimal digits. -/
def codeUnit (a b c d : UInt8) : Nat :=
  [a, b, c, d].foldl (fun value digit => value * 16 + (Numeral.charToDigit digit 16).getD 0) 0

/-- The first half of a surrogate pair. -/
def isHigh (unit : Nat) : Bool := 0xD800 ≤ unit && unit < 0xDC00

/-- The second half of a surrogate pair. -/
def isLow (unit : Nat) : Bool := 0xDC00 ≤ unit && unit < 0xE000

/-- The scalar value of a surrogate pair. -/
def combine (high low : Nat) : Nat := 0x10000 + (high - 0xD800) * 1024 + (low - 0xDC00)

/-- Put bytes in front of a result. -/
def emit (bytes : Bytes) (rest : Option Bytes) : Option Bytes :=
  rest.map fun tail => bytes ++ tail

/-- The bytes of a body; `lone` stands for half a surrogate pair, or refuses it. -/
def decode (lone : Option Bytes) : List Chunk → Option Bytes
  | [] => some []
  | .plain byte :: rest => emit [byte] (decode lone rest)
  | .short letter :: rest => emit [shortByte letter] (decode lone rest)
  | .code a b c d :: rest =>
      if isHigh (codeUnit a b c d) then
        match rest with
        | .code e f g h :: more =>
            if isLow (codeUnit e f g h) then
              emit (Utf8.encode (combine (codeUnit a b c d) (codeUnit e f g h))) (decode lone more)
            else
              lone.bind fun bytes => emit bytes (decode lone (.code e f g h :: more))
        | rest => lone.bind fun bytes => emit bytes (decode lone rest)
      else if isLow (codeUnit a b c d) then
        lone.bind fun bytes => emit bytes (decode lone rest)
      else
        emit (Utf8.encode (codeUnit a b c d)) (decode lone rest)

theorem decode_plainBody_append (lone : Option Bytes) (text : Bytes) (rest : List Chunk) :
    decode lone (plainBody text ++ rest) = emit text (decode lone rest) := by
  induction text with
  | nil => cases h : decode lone rest <;> simp [plainBody, emit, h]
  | cons c text ih =>
      rw [plainBody, List.map_cons, List.cons_append, decode, ← plainBody, ih]
      cases decode lone rest <;> rfl

theorem decode_plainBody (lone : Option Bytes) (text : Bytes) :
    decode lone (plainBody text) = some text := by
  have h := decode_plainBody_append lone text []
  rwa [List.append_nil, decode, emit, Option.map_some, List.append_nil] at h

/-- An escape outside the surrogates stands for itself, whatever follows. -/
theorem decode_code (lone : Option Bytes) {a b c d : UInt8}
    (hhigh : isHigh (codeUnit a b c d) = false) (hlow : isLow (codeUnit a b c d) = false)
    (rest : List Chunk) :
    decode lone (.code a b c d :: rest) = emit (Utf8.encode (codeUnit a b c d)) (decode lone rest) := by
  rw [decode.eq_def]
  simp only [hhigh, hlow, Bool.false_eq_true, if_false]

end Ubiq.Foundation.Json
