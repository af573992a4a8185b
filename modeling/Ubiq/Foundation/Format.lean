import Ubiq.Foundation.Numeral

/-!
# Printers with a reader

A `Format` prints values and reads them back from the front of any text. The
law is part of the structure, so formats are built by composition and the round
trip of a record of many fields needs no proof of its own.

The scalar formats are those of JSON as Zig's `std.json` prints it: decimal
numbers, quoted strings with the escapes of `outputSpecialEscape`, `null`.
-/

namespace Ubiq.Foundation

/-- A printer and a reader that undoes it in front of any rest. -/
structure Format (α : Type*) where
  print : α → Bytes
  read : Bytes → Option (α × Bytes)
  read_print : ∀ value rest, read (print value ++ rest) = some (value, rest)

namespace Format

variable {α β : Type*} {byte : UInt8} {text : Bytes}

/-- No printed text holds the byte. -/
def Avoids (format : Format α) (byte : UInt8) : Prop :=
  ∀ value, byte ∉ format.print value

/-- Remove an expected text from the front. -/
def strip : Bytes → Bytes → Option Bytes
  | [], text => some text
  | _ :: _, [] => none
  | expected :: more, c :: rest => if c = expected then strip more rest else none

theorem strip_append (expected rest : Bytes) : strip expected (expected ++ rest) = some rest := by
  induction expected with
  | nil => cases rest <;> rfl
  | cons c more ih => simp [strip, ih]

/-- A fixed text in front of a value. -/
def tagged (text : Bytes) (format : Format α) : Format α where
  print value := text ++ format.print value
  read input := (strip text input).bind format.read
  read_print value rest := by
    rw [List.append_assoc, strip_append, Option.bind_some, format.read_print]

theorem Avoids.tagged {format : Format α} (htext : byte ∉ text) (h : format.Avoids byte) :
    (tagged text format).Avoids byte := by
  intro value hmem
  rcases List.mem_append.mp hmem with hleft | hright
  · exact htext hleft
  · exact h value hright

/-- A fixed text behind a value. -/
def closed (format : Format α) (text : Bytes) : Format α where
  print value := format.print value ++ text
  read input :=
    (format.read input).bind fun (value, rest) => (strip text rest).map fun final => (value, final)
  read_print value rest := by
    rw [List.append_assoc, format.read_print]
    simp only [Option.bind_some, strip_append, Option.map_some]

theorem Avoids.closed {format : Format α} (htext : byte ∉ text) (h : format.Avoids byte) :
    (closed format text).Avoids byte := by
  intro value hmem
  rcases List.mem_append.mp hmem with hleft | hright
  · exact h value hleft
  · exact htext hright

/-- Two values one after the other. -/
def seq (first : Format α) (second : Format β) : Format (α × β) where
  print value := first.print value.1 ++ second.print value.2
  read input :=
    (first.read input).bind fun (left, rest) =>
      (second.read rest).map fun (right, final) => ((left, right), final)
  read_print value rest := by
    rw [List.append_assoc, first.read_print]
    simp only [Option.bind_some, second.read_print, Option.map_some]

theorem Avoids.seq {first : Format α} {second : Format β} (hfirst : first.Avoids byte)
    (hsecond : second.Avoids byte) :
    (seq first second).Avoids byte := by
  intro value hmem
  rcases List.mem_append.mp hmem with hleft | hright
  · exact hfirst value.1 hleft
  · exact hsecond value.2 hright

/-- Print values of one type as values of another. -/
def comap (format : Format β) (encode : α → β) (back : β → α)
    (hback : ∀ value, back (encode value) = value) : Format α where
  print value := format.print (encode value)
  read input := (format.read input).map fun (value, rest) => (back value, rest)
  read_print value rest := by simp only [format.read_print, Option.map_some, hback]

theorem Avoids.comap {format : Format β} {encode : α → β} {back : β → α}
    {hback : ∀ value, back (encode value) = value} (h : format.Avoids byte) :
    (comap format encode back hback).Avoids byte :=
  fun value => h (encode value)

/-! ## Numbers -/

/-- The text up to a byte, and the text after it. -/
def readUntil (stop : UInt8) : Bytes → Option (Bytes × Bytes)
  | [] => none
  | c :: rest =>
      if c = stop then some ([], rest)
      else (readUntil stop rest).map fun cut => (c :: cut.1, cut.2)

theorem readUntil_append {stop : UInt8} (h : stop ∉ text) (rest : Bytes) :
    readUntil stop (text ++ stop :: rest) = some (text, rest) := by
  induction text with
  | nil => simp [readUntil]
  | cons c more ih =>
      obtain ⟨hne, hmore⟩ := not_or.mp (List.mem_cons.not.mp h)
      rw [List.cons_append, readUntil, if_neg (Ne.symm hne), ih hmore, Option.map_some]

/-- What was cut is the text again. -/
theorem append_of_readUntil {stop : UInt8} {input rest : Bytes}
    (h : readUntil stop input = some (text, rest)) : text ++ stop :: rest = input := by
  induction input generalizing text with
  | nil => cases h
  | cons c more ih =>
      rw [readUntil] at h
      split at h
      · next hstop =>
          cases h
          rw [List.nil_append, hstop]
      · obtain ⟨cut, hcut, hpair⟩ := Option.map_eq_some_iff.mp h
        cases hpair
        rw [List.cons_append, ih hcut]

/-- The comma is no digit. -/
theorem comma_not_mem_digits (value : Nat) : (44 : UInt8) ∉ Numeral.digits 10 value := by
  intro hmem
  obtain ⟨digit, hlt, heq⟩ := Numeral.mem_digits (by decide) hmem
  have hall : ∀ d < 10, (44 : UInt8) ≠ Numeral.digitByte d := by decide
  exact hall digit hlt heq

/-- An unsigned number below `bound` followed by a comma. -/
def number (bound : Nat) (toNat : α → Nat) (ofNat : Nat → α) (hbound : ∀ value, toNat value < bound)
    (hback : ∀ value, ofNat (toNat value) = value) : Format α where
  print value := Numeral.digits 10 (toNat value) ++ [44]
  read input :=
    (readUntil 44 input).bind fun (text, rest) =>
      (Numeral.accumulate 10 bound 0 text).map fun value => (ofNat value, rest)
  read_print value rest := by
    rw [List.append_assoc, List.singleton_append, readUntil_append (comma_not_mem_digits _)]
    have hdigits : Numeral.accumulate 10 bound 0 (Numeral.digits 10 (toNat value)) =
        some (toNat value) := Numeral.accumulate_digits (by decide) (by decide) (hbound value)
    simp only [Option.bind_some, hdigits, Option.map_some, hback]

theorem avoids_newline_number {bound : Nat} {toNat : α → Nat} {ofNat : Nat → α}
    {hbound : ∀ value, toNat value < bound} {hback : ∀ value, ofNat (toNat value) = value} :
    (number bound toNat ofNat hbound hback).Avoids newline := by
  intro value hmem
  rcases List.mem_append.mp hmem with hleft | hright
  · exact (Numeral.separator_not_mem_digits (by decide) (by decide)).1 hleft
  · exact absurd (List.mem_singleton.mp hright) (by decide)

/-! ## Strings -/

/-- The letter of a two-byte escape. -/
def shortEscape (c : UInt8) : Option UInt8 :=
  if c = 92 then some 92
  else if c = 34 then some 34
  else if c = 8 then some 98
  else if c = 12 then some 102
  else if c = 10 then some 110
  else if c = 13 then some 114
  else if c = 9 then some 116
  else none

/-- The byte of a two-byte escape. -/
def shortUnescape (letter : UInt8) : Option UInt8 :=
  if letter = 92 then some 92
  else if letter = 34 then some 34
  else if letter = 98 then some 8
  else if letter = 102 then some 12
  else if letter = 110 then some 10
  else if letter = 114 then some 13
  else if letter = 116 then some 9
  else none

/-- One byte of a string: control bytes, quotes and backslashes are escaped. -/
def escape (c : UInt8) : Bytes :=
  match shortEscape c with
  | some letter => [92, letter]
  | none =>
      if c.toNat < 32 then
        [92, 117, 48, 48, Numeral.digitByte (c.toNat / 16), Numeral.digitByte (c.toNat % 16)]
      else [c]

/-- How far into an escape the reader is. -/
inductive Pending
  | plain
  | backslash
  | unicode (left value : Nat)

/-- The body of a string up to its closing quote. Of the `\u` escapes only those
of control bytes are read: the printer writes no others. -/
def readBody : Pending → Bytes → Option (Bytes × Bytes)
  | _, [] => none
  | .plain, c :: rest =>
      if c = 34 then some ([], rest)
      else if c = 92 then readBody .backslash rest
      else (readBody .plain rest).map fun cut => (c :: cut.1, cut.2)
  | .backslash, c :: rest =>
      if c = 117 then readBody (.unicode 3 0) rest
      else
        match shortUnescape c with
        | some byte => (readBody .plain rest).map fun cut => (byte :: cut.1, cut.2)
        | none => none
  | .unicode left value, c :: rest =>
      match Numeral.charToDigit c 16 with
      | none => none
      | some digit =>
          match left with
          | left + 1 => readBody (.unicode left (value * 16 + digit)) rest
          | 0 =>
              if value * 16 + digit < 32 then
                (readBody .plain rest).map fun cut =>
                  (UInt8.ofNat (value * 16 + digit) :: cut.1, cut.2)
              else none

/-- Each escape reads back as its byte. -/
theorem readBody_escape (c : UInt8) (rest : Bytes) :
    readBody .plain (escape c ++ rest) =
      (readBody .plain rest).map fun cut => (c :: cut.1, cut.2) := by
  unfold escape
  cases hshort : shortEscape c with
  | some letter =>
      -- the letter must not announce a `\u` escape
      have hback : shortUnescape letter = some c ∧ letter ≠ 117 := by
        unfold shortEscape at hshort
        split_ifs at hshort <;> subst_vars <;> cases hshort <;> decide
      simp [readBody, hback.1, hback.2]
  | none =>
      have hplain : c ≠ 92 ∧ c ≠ 34 := by
        constructor <;> rintro rfl <;> simp [shortEscape] at hshort
      by_cases hcontrol : c.toNat < 32
      · -- two zeros and the two hexadecimal digits of the byte
        have hzero : Numeral.charToDigit 48 16 = some 0 := by decide
        have hhigh := Numeral.charToDigit_digitByte (show c.toNat / 16 < 16 by omega) le_rfl
        have hlow := Numeral.charToDigit_digitByte (show c.toNat % 16 < 16 by omega) le_rfl
        have hvalue : c.toNat / 16 * 16 + c.toNat % 16 = c.toNat := Nat.div_add_mod' c.toNat 16
        simp [readBody, hcontrol, hzero, hhigh, hlow, hvalue]
      · simp [readBody, hcontrol, hplain]

theorem readBody_flatMap_escape (text rest : Bytes) :
    readBody .plain (text.flatMap escape ++ 34 :: rest) = some (text, rest) := by
  induction text with
  | nil => simp [readBody]
  | cons c more ih =>
      rw [List.flatMap_cons, List.append_assoc, readBody_escape, ih, Option.map_some]

/-- An escaped byte is never a raw control byte. -/
theorem newline_not_mem_escape (c : UInt8) : newline ∉ escape c := by
  have hall : ∀ n < 256, newline ∉ escape (UInt8.ofNat n) := by decide +kernel
  have hc := hall c.toNat c.toNat_lt
  rwa [UInt8.ofNat_toNat] at hc

/-- A quoted string. -/
def quoted : Format Bytes where
  print text := 34 :: (text.flatMap escape ++ [34])
  read
    | 34 :: rest => readBody .plain rest
    | _ => none
  read_print text rest := by
    simp only [List.cons_append, List.append_assoc, List.nil_append]
    exact readBody_flatMap_escape text rest

theorem avoids_newline_quoted : quoted.Avoids newline := by
  intro text hmem
  have hparts : newline = 34 ∨ newline ∈ text.flatMap escape ∨ newline = 34 := by
    simpa [quoted, List.mem_append] using hmem
  rcases hparts with h | h | h
  · exact absurd h (by decide)
  · obtain ⟨c, -, hc⟩ := List.mem_flatMap.mp h
    exact newline_not_mem_escape c hc
  · exact absurd h (by decide)

/-- `null`, or a quoted string. -/
def nullable : Format (Option Bytes) where
  print
    | none => ascii "null"
    | some text => quoted.print text
  read input :=
    match strip (ascii "null") input with
    | some rest => some (none, rest)
    | none => (quoted.read input).map fun (text, rest) => (some text, rest)
  read_print value rest := by
    cases value with
    | none => rw [strip_append]
    | some text =>
        -- a quoted string starts with a quote and `null` does not
        have hquote : strip (ascii "null") (quoted.print text ++ rest) = none := rfl
        rw [hquote]
        simp only [quoted.read_print, Option.map_some]

theorem avoids_newline_nullable : nullable.Avoids newline := by
  intro value
  cases value with
  | none => decide
  | some text => exact avoids_newline_quoted text

end Format
end Ubiq.Foundation
