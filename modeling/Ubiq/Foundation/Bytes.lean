import Mathlib.Tactic
import Mathlib.Order.Defs.LinearOrder
import Mathlib.Data.List.Lex

/-!
# Byte strings

Zig slices `[]const u8` and Go strings are both sequences of bytes and are both
compared byte by byte, so one type serves the two runtimes.
-/

namespace Ubiq.Foundation

/-- A string of either runtime. -/
abbrev Bytes := List UInt8

/-- Membership in a list of strings is decided by comparing them. -/
instance instLawfulBEqBytes : LawfulBEq Bytes := inferInstance

/-- The order of bytes; with it lists of bytes carry the lexicographic order in
which Go and SQL compare keys. -/
instance instLinearOrderUInt8 : LinearOrder UInt8 where
  le_refl := UInt8.le_refl
  le_trans _ _ _ := UInt8.le_trans
  le_antisymm _ _ := UInt8.le_antisymm
  le_total := UInt8.le_total
  lt_iff_le_not_ge a b := by
    rw [UInt8.lt_iff_toNat_lt, UInt8.le_iff_toNat_le, UInt8.le_iff_toNat_le]
    omega
  toDecidableLE := inferInstance
  toDecidableLT := inferInstance
  toDecidableEq := inferInstance

/-- The bytes of an ASCII text. -/
def ascii (text : String) : Bytes :=
  text.toList.map fun c => UInt8.ofNat c.toNat

/-- The line terminator `\n`. -/
def newline : UInt8 := 10

/-- The separator `\t`. -/
def tab : UInt8 := 9

end Ubiq.Foundation
