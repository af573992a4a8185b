import Ubiq.Foundation.Bytes
import Mathlib.Data.Nat.Digits.Defs

/-!
# Printed numerals

The unsigned fragment of Zig's `std.fmt`: printing with `{x}` and `{d}` (lower
case, no padding) and `parseInt`, which reads an optional sign and ignores
underscores between digits. `parseInt_digits` is the round trip.
-/

namespace Ubiq.Foundation.Numeral

/-- The digits of a number, most significant first, as `{x}` (`base = 16`) and
`{d}` (`base = 10`) print them. -/
def digits (base value : Nat) : Bytes :=
  (Nat.toDigits base value).map fun c => UInt8.ofNat c.toNat

def charToDigit (c : UInt8) (base : Nat) : Option Nat :=
  let value :=
    if 48 ≤ c.toNat ∧ c.toNat ≤ 57 then some (c.toNat - 48)
    else if 65 ≤ c.toNat ∧ c.toNat ≤ 90 then some (c.toNat - 65 + 10)
    else if 97 ≤ c.toNat ∧ c.toNat ≤ 122 then some (c.toNat - 97 + 10)
    else none
  value.filter fun digit => digit < base

/-- The digit loop of `parseInt` for a positive sign: underscores are skipped,
and a value that reaches `bound` overflows. -/
def accumulate (base bound : Nat) : Nat → Bytes → Option Nat
  | value, [] => some value
  | value, c :: rest =>
      -- an underscore inside the numeral separates digits
      if c = 95 then
        accumulate base bound value rest
      else
        match charToDigit c base with
        | none => none
        | some digit =>
            if value * base + digit < bound then
              accumulate base bound (value * base + digit) rest
            else
              none

/-- The digit loop of `parseInt` for a negative sign and an unsigned result:
every digit has to be zero. -/
def accumulateNegative (base : Nat) : Bytes → Option Nat
  | [] => some 0
  | c :: rest =>
      if c = 95 then
        accumulateNegative base rest
      else
        match charToDigit c base with
        | some 0 => accumulateNegative base rest
        | _ => none

/-- `parseIntWithSign`: no digits at all, or an underscore at either end, is
refused. -/
def parseIntWithSign (digitLoop : Bytes → Option Nat) (text : Bytes) : Option Nat :=
  if text = [] ∨ text.head? = some 95 ∨ text.getLast? = some 95 then none
  else digitLoop text

/-- `std.fmt.parseInt` into an unsigned integer below `bound`. -/
def parseInt (base bound : Nat) : Bytes → Option Nat
  | [] => none
  | c :: rest =>
      if c = 43 then
        parseIntWithSign (accumulate base bound 0) rest
      else if c = 45 then
        parseIntWithSign (accumulateNegative base) rest
      else
        parseIntWithSign (accumulate base bound 0) (c :: rest)

/-- The printed form of one digit. -/
def digitByte (digit : Nat) : UInt8 :=
  UInt8.ofNat digit.digitChar.toNat

variable {digit base value bound : Nat}

theorem charToDigit_digitByte (hdigit : digit < base) (hbase : base ≤ 16) :
    charToDigit (digitByte digit) base = some digit := by
  have hsmall : digit < 16 := by omega
  -- decided for base 16; a smaller base only lowers the limit of the filter
  have hvalue : ∀ d < 16, charToDigit (digitByte d) 16 = some d := by decide
  have hkeep := hvalue digit hsmall
  unfold charToDigit at hkeep ⊢
  rw [Option.filter_eq_some_iff] at hkeep ⊢
  exact ⟨hkeep.1, by simpa using hdigit⟩

/-- A digit is none of the bytes that `parseInt` treats apart, and no separator. -/
theorem digitByte_ne (hdigit : digit < 16) :
    digitByte digit ≠ 95 ∧ digitByte digit ≠ 43 ∧ digitByte digit ≠ 45 ∧
      digitByte digit ≠ newline ∧ digitByte digit ≠ tab := by
  have hall : ∀ d < 16, digitByte d ≠ 95 ∧ digitByte d ≠ 43 ∧ digitByte d ≠ 45 ∧
      digitByte d ≠ newline ∧ digitByte d ≠ tab := by decide
  exact hall digit hdigit

theorem digits_of_lt_base (h : value < base) :
    digits base value = [digitByte value] := by
  simp [digits, digitByte, Nat.toDigits_of_lt_base h]

theorem digits_snoc (hbase : 1 < base) (hvalue : 0 < value) (hdigit : digit < base) :
    digits base (base * value + digit) = digits base value ++ [digitByte digit] := by
  simp [digits, digitByte, ← Nat.toDigits_append_toDigits hbase hvalue hdigit,
    Nat.toDigits_of_lt_base hdigit]

theorem digits_ne_nil (base value : Nat) : digits base value ≠ [] := by
  simp [digits, Nat.toDigits_ne_nil]

/-- Every byte of a numeral is a digit. -/
theorem mem_digits (hbase : 1 < base) {c : UInt8} (h : c ∈ digits base value) :
    ∃ digit < base, c = digitByte digit := by
  induction value using Nat.base_induction base hbase with
  | single value hvalue =>
      rw [digits_of_lt_base hvalue, List.mem_singleton] at h
      exact ⟨value, hvalue, h⟩
  | digit value digit hdigit hvalue ih =>
      rw [digits_snoc hbase hvalue hdigit, List.mem_append, List.mem_singleton] at h
      rcases h with h | h
      · exact ih h
      · exact ⟨digit, hdigit, h⟩

theorem accumulate_append (base bound value : Nat) (first second : Bytes) :
    accumulate base bound value (first ++ second) =
      (accumulate base bound value first).bind fun middle =>
        accumulate base bound middle second := by
  induction first generalizing value with
  | nil => rfl
  | cons c rest ih =>
      simp only [List.cons_append, accumulate]
      split
      · exact ih value
      · cases charToDigit c base with
        | none => rfl
        | some digit =>
            simp only
            split
            · exact ih _
            · rfl

theorem accumulate_digitByte (hbase : base ≤ 16) (hdigit : digit < base)
    (hbound : value * base + digit < bound) :
    accumulate base bound value [digitByte digit] = some (value * base + digit) := by
  have hplain := (digitByte_ne (show digit < 16 by omega)).1
  simp [accumulate, hplain, charToDigit_digitByte hdigit hbase, hbound]

/-- The digit loop reads a printed numeral back. -/
theorem accumulate_digits (hbase : 1 < base) (hsmall : base ≤ 16) (hbound : value < bound) :
    accumulate base bound 0 (digits base value) = some value := by
  induction value using Nat.base_induction base hbase with
  | single value hvalue =>
      rw [digits_of_lt_base hvalue, accumulate_digitByte hsmall hvalue (by omega)]
      simp
  | digit value digit hdigit hvalue ih =>
      -- the leading digits are a smaller number, hence below the bound as well
      have hle : value ≤ base * value := Nat.le_mul_of_pos_left value (by omega)
      rw [digits_snoc hbase hvalue hdigit, accumulate_append, ih (by omega), Option.bind_some,
        accumulate_digitByte hsmall hdigit (by rw [Nat.mul_comm]; omega), Nat.mul_comm]

/-- The digit loop refuses a numeral that is too large. -/
theorem accumulate_digits_of_le (hbase : 1 < base) (hsmall : base ≤ 16) (hbound : bound ≤ value) :
    accumulate base bound 0 (digits base value) = none := by
  have hstep : ∀ leading digit, digit < base → bound ≤ leading * base + digit →
      accumulate base bound leading [digitByte digit] = none := by
    intro leading digit hdigit hle
    have hplain := (digitByte_ne (show digit < 16 by omega)).1
    simp [accumulate, hplain, charToDigit_digitByte hdigit hsmall, not_lt.mpr hle]
  induction value using Nat.base_induction base hbase with
  | single value hvalue =>
      rw [digits_of_lt_base hvalue]
      exact hstep 0 value hvalue (by omega)
  | digit value digit hdigit hvalue ih =>
      rw [digits_snoc hbase hvalue hdigit, accumulate_append]
      by_cases hleading : bound ≤ value
      · rw [ih hleading, Option.bind_none]
      · rw [accumulate_digits hbase hsmall (not_le.mp hleading), Option.bind_some]
        exact hstep value digit hdigit (by rw [Nat.mul_comm]; exact hbound)

/-- A printed numeral is read by the digit loop alone. -/
theorem parseInt_digits_eq (hbase : 1 < base) (hsmall : base ≤ 16) :
    parseInt base bound (digits base value) = accumulate base bound 0 (digits base value) := by
  have hdigit : ∀ c ∈ digits base value, c ≠ 95 ∧ c ≠ 43 ∧ c ≠ 45 := by
    intro c hc
    obtain ⟨digit, hlt, rfl⟩ := mem_digits hbase hc
    obtain ⟨h95, h43, h45, -, -⟩ := digitByte_ne (show digit < 16 by omega)
    exact ⟨h95, h43, h45⟩
  have hends : ¬(digits base value = [] ∨ (digits base value).head? = some 95 ∨
      (digits base value).getLast? = some 95) := by
    rintro (h | h | h)
    · exact digits_ne_nil base value h
    · exact (hdigit 95 (List.mem_of_head? h)).1 rfl
    · exact (hdigit 95 (List.mem_of_getLast? h)).1 rfl
  cases hshape : digits base value with
  | nil => exact absurd hshape (digits_ne_nil base value)
  | cons c rest =>
      have hc := hdigit c (by rw [hshape]; exact List.mem_cons_self)
      rw [hshape] at hends
      rw [parseInt, if_neg hc.2.1, if_neg hc.2.2, parseIntWithSign, if_neg hends]

/-- **Round trip of numerals.** -/
theorem parseInt_digits (hbase : 1 < base) (hsmall : base ≤ 16) (hbound : value < bound) :
    parseInt base bound (digits base value) = some value := by
  rw [parseInt_digits_eq hbase hsmall, accumulate_digits hbase hsmall hbound]

theorem parseInt_digits_of_le (hbase : 1 < base) (hsmall : base ≤ 16) (hbound : bound ≤ value) :
    parseInt base bound (digits base value) = none := by
  rw [parseInt_digits_eq hbase hsmall, accumulate_digits_of_le hbase hsmall hbound]

/-- A numeral holds neither a tab nor a newline. -/
theorem separator_not_mem_digits (hbase : 1 < base) (hsmall : base ≤ 16) :
    newline ∉ digits base value ∧ tab ∉ digits base value := by
  constructor
  · intro h
    obtain ⟨digit, hlt, heq⟩ := mem_digits hbase h
    exact (digitByte_ne (show digit < 16 by omega)).2.2.2.1 heq.symm
  · intro h
    obtain ⟨digit, hlt, heq⟩ := mem_digits hbase h
    exact (digitByte_ne (show digit < 16 by omega)).2.2.2.2 heq.symm

/-! ## Plain numerals -/

/-- A numeral that consists of digits only. -/
def readPlain (base : Nat) (text : Bytes) : Option Nat :=
  if text = [] then none
  else text.foldlM (fun value c => (charToDigit c base).map fun digit => value * base + digit) 0

/-- A printed numeral is plain. -/
theorem readPlain_digits (hbase : 1 < base) (hsmall : base ≤ 16) (value : Nat) :
    readPlain base (digits base value) = some value := by
  rw [readPlain, if_neg (digits_ne_nil base value)]
  induction value using Nat.base_induction base hbase with
  | single value hvalue =>
      simp [digits_of_lt_base hvalue, charToDigit_digitByte hvalue hsmall]
  | digit value digit hdigit hvalue ih =>
      rw [digits_snoc hbase hvalue hdigit, List.foldlM_append, ih]
      simp [charToDigit_digitByte hdigit hsmall, Nat.mul_comm]

end Ubiq.Foundation.Numeral
