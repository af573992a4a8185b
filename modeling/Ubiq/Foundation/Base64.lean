import Ubiq.Foundation.Bytes

/-!
# Base64

The standard encoding with padding: three bytes are written as four letters, the rest is filled up
with `=`. The decoder skips line breaks and ignores unused bits of the last letter.
-/

namespace Ubiq.Foundation.Base64

/-- The standard alphabet. -/
def alphabet : Bytes :=
  ascii "ABCDEFGHIJKLMNOPQRSTUVWXYZabcdefghijklmnopqrstuvwxyz0123456789+/"

/-- The letter of six bits. -/
def letter (value : Nat) : UInt8 := alphabet.getD value 61

/-- The six bits of a letter. -/
def sextet (c : UInt8) : Option Nat := alphabet.findIdx? fun other => other = c

/-- `base64.StdEncoding.EncodeToString`. -/
def encode : Bytes → Bytes
  | [] => []
  | [a] => [letter (a.toNat / 4), letter (a.toNat % 4 * 16), 61, 61]
  | [a, b] =>
      [letter (a.toNat / 4), letter (a.toNat % 4 * 16 + b.toNat / 16), letter (b.toNat % 16 * 4), 61]
  | a :: b :: c :: rest =>
      letter (a.toNat / 4) :: letter (a.toNat % 4 * 16 + b.toNat / 16) ::
        letter (b.toNat % 16 * 4 + c.toNat / 64) :: letter (c.toNat % 64) :: encode rest

/-- The bytes of two, three or four letters. -/
def firstByte (u v : Nat) : UInt8 := UInt8.ofNat (u * 4 + v / 16)

@[inherit_doc firstByte] def secondByte (v w : Nat) : UInt8 := UInt8.ofNat (v % 16 * 16 + w / 4)

@[inherit_doc firstByte] def thirdByte (w x : Nat) : UInt8 := UInt8.ofNat (w % 4 * 64 + x)

/-- The decoder behind the removal of line breaks. -/
def decodeLetters : Bytes → Option Bytes
  | [] => some []
  | a :: b :: c :: d :: rest =>
      match sextet a, sextet b with
      | some u, some v =>
          if c = 61 then
            -- padding ends the text
            if d = 61 ∧ rest = [] then some [firstByte u v] else none
          else
            match sextet c with
            | none => none
            | some w =>
                if d = 61 then
                  if rest = [] then some [firstByte u v, secondByte v w] else none
                else
                  match sextet d with
                  | none => none
                  | some x =>
                      (decodeLetters rest).map fun tail =>
                        firstByte u v :: secondByte v w :: thirdByte w x :: tail
      | _, _ => none
  | _ => none

/-- `base64.StdEncoding.DecodeString`. -/
def decode (text : Bytes) : Option Bytes :=
  decodeLetters (text.filter fun c => c ≠ 10 ∧ c ≠ 13)

/-! ## Round trip -/

theorem letter_spec (value : Nat) (h : value < 64) :
    sextet (letter value) = some value ∧ letter value ≠ 61 ∧ letter value ≠ 10 ∧
      letter value ≠ 13 := by
  have hall : ∀ n < 64, sextet (letter n) = some n ∧ letter n ≠ 61 ∧ letter n ≠ 10 ∧
      letter n ≠ 13 := by decide +kernel
  exact hall value h

theorem ofNat_eq {byte : UInt8} {value : Nat} (h : value = byte.toNat) : UInt8.ofNat value = byte := by
  rw [h, UInt8.ofNat_toNat]

theorem firstByte_eq (a : UInt8) (low : Nat) (hlow : low < 16) :
    firstByte (a.toNat / 4) (a.toNat % 4 * 16 + low) = a := by
  have ha := a.toNat_lt
  exact ofNat_eq (by omega)

theorem secondByte_eq (b : UInt8) (high low : Nat) (hlow : low < 4) :
    secondByte (high * 16 + b.toNat / 16) (b.toNat % 16 * 4 + low) = b := by
  have hb := b.toNat_lt
  exact ofNat_eq (by omega)

theorem thirdByte_eq (c : UInt8) (high : Nat) :
    thirdByte (high * 4 + c.toNat / 64) (c.toNat % 64) = c := by
  have hc := c.toNat_lt
  exact ofNat_eq (by omega)

theorem decodeLetters_encode (bytes : Bytes) : decodeLetters (encode bytes) = some bytes := by
  fun_induction encode bytes with
  | case1 => rfl
  | case2 a =>
      have ha := a.toNat_lt
      obtain ⟨hu, -⟩ := letter_spec (a.toNat / 4) (by omega)
      obtain ⟨hv, -⟩ := letter_spec (a.toNat % 4 * 16) (by omega)
      have hfirst := firstByte_eq a 0 (by omega)
      rw [Nat.add_zero] at hfirst
      simp [decodeLetters, hu, hv, hfirst]
  | case3 a b =>
      have ha := a.toNat_lt
      have hb := b.toNat_lt
      obtain ⟨hu, -⟩ := letter_spec (a.toNat / 4) (by omega)
      obtain ⟨hv, -⟩ := letter_spec (a.toNat % 4 * 16 + b.toNat / 16) (by omega)
      obtain ⟨hw, hpad, -⟩ := letter_spec (b.toNat % 16 * 4) (by omega)
      have hfirst := firstByte_eq a (b.toNat / 16) (by omega)
      have hsecond := secondByte_eq b (a.toNat % 4) 0 (by omega)
      rw [Nat.add_zero] at hsecond
      simp [decodeLetters, hu, hv, hw, hpad, hfirst, hsecond]
  | case4 a b c rest ih =>
      have ha := a.toNat_lt
      have hb := b.toNat_lt
      have hc := c.toNat_lt
      obtain ⟨hu, -⟩ := letter_spec (a.toNat / 4) (by omega)
      obtain ⟨hv, -⟩ := letter_spec (a.toNat % 4 * 16 + b.toNat / 16) (by omega)
      obtain ⟨hw, hpad, -⟩ := letter_spec (b.toNat % 16 * 4 + c.toNat / 64) (by omega)
      obtain ⟨hx, hlast, -⟩ := letter_spec (c.toNat % 64) (by omega)
      have hfirst := firstByte_eq a (b.toNat / 16) (by omega)
      have hsecond := secondByte_eq b (a.toNat % 4) (c.toNat / 64) (by omega)
      have hthird := thirdByte_eq c (b.toNat % 16)
      simp [decodeLetters, hu, hv, hw, hx, hpad, hlast, hfirst, hsecond, hthird, ih]

/-- The bytes that the encoder writes. -/
def Written (c : UInt8) : Prop :=
  c = 61 ∨ ∃ value < 64, c = letter value

theorem written_letter {value : Nat} (h : value < 64) : Written (letter value) :=
  Or.inr ⟨value, h, rfl⟩

theorem written_padding : Written 61 := Or.inl rfl

theorem written_encode (bytes : Bytes) : ∀ c ∈ encode bytes, Written c := by
  fun_induction encode bytes with
  | case1 => simp
  | case2 a =>
      have ha := a.toNat_lt
      simp only [List.forall_mem_cons]
      exact ⟨written_letter (by omega), written_letter (by omega), written_padding,
        written_padding, by simp⟩
  | case3 a b =>
      have ha := a.toNat_lt
      have hb := b.toNat_lt
      simp only [List.forall_mem_cons]
      exact ⟨written_letter (by omega), written_letter (by omega), written_letter (by omega),
        written_padding, by simp⟩
  | case4 a b c rest ih =>
      have ha := a.toNat_lt
      have hb := b.toNat_lt
      have hc := c.toNat_lt
      simp only [List.forall_mem_cons]
      exact ⟨written_letter (by omega), written_letter (by omega), written_letter (by omega),
        written_letter (by omega), ih⟩

/-- **The bytes are read back.** -/
theorem decode_of_encode (bytes : Bytes) : decode (encode bytes) = some bytes := by
  have hbreaks : (encode bytes).filter (fun c => c ≠ 10 ∧ c ≠ 13) = encode bytes := by
    refine List.filter_eq_self.mpr ?_
    intro c hc
    rcases written_encode bytes c hc with rfl | ⟨value, hvalue, rfl⟩
    · decide
    · obtain ⟨-, -, hfeed, hreturn⟩ := letter_spec value hvalue
      simp [hfeed, hreturn]
  rw [decode, hbreaks, decodeLetters_encode]

end Ubiq.Foundation.Base64
