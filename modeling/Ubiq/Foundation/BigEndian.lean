import Ubiq.Foundation.Bytes

/-!
# Fixed-width integers and fields of a frame

A frame of a binary protocol is a header of big-endian integers of fixed widths and a
body of fields whose lengths the header gives.

* `bytesOf` and `valueOf` convert one integer, `writeInts` and `readInts` a header.
* `splitFields` cuts a body into fields of given lengths.

Each pair comes with both round trips.
-/

namespace Ubiq.Foundation.BigEndian

/-! ## One integer -/

/-- The integer with the given bytes, the most significant first. -/
def valueOf : Bytes → Nat
  | [] => 0
  | byte :: rest => byte.toNat * 256 ^ rest.length + valueOf rest

/-- The bytes of an integer; what does not fit the width is dropped. -/
def bytesOf : Nat → Nat → Bytes
  | 0, _ => []
  | width + 1, value => UInt8.ofNat (value / 256 ^ width % 256) :: bytesOf width (value % 256 ^ width)

@[simp] theorem length_bytesOf (width value : Nat) : (bytesOf width value).length = width := by
  induction width generalizing value with
  | zero => rfl
  | succ width ih => simp [bytesOf, ih]

theorem valueOf_lt (bytes : Bytes) : valueOf bytes < 256 ^ bytes.length := by
  induction bytes with
  | nil => simp [valueOf]
  | cons byte rest ih =>
      have hbyte : byte.toNat ≤ 255 := by
        have := byte.toNat_lt
        omega
      calc valueOf (byte :: rest)
          < byte.toNat * 256 ^ rest.length + 256 ^ rest.length := by
            unfold valueOf
            omega
        _ = (byte.toNat + 1) * 256 ^ rest.length := by ring
        _ ≤ 256 * 256 ^ rest.length := Nat.mul_le_mul_right _ (by omega)
        _ = 256 ^ (byte :: rest).length := by rw [List.length_cons, pow_succ']

theorem valueOf_bytesOf {width value : Nat} (h : value < 256 ^ width) :
    valueOf (bytesOf width value) = value := by
  induction width generalizing value with
  | zero =>
      simp only [pow_zero, Nat.lt_one_iff] at h
      simp [h, bytesOf, valueOf]
  | succ width ih =>
      have hpos : 0 < 256 ^ width := Nat.pow_pos (by decide)
      have hdigit : value / 256 ^ width < 256 := by
        rw [Nat.div_lt_iff_lt_mul hpos, ← pow_succ']
        exact h
      rw [bytesOf, valueOf, length_bytesOf, ih (Nat.mod_lt _ hpos), Nat.mod_eq_of_lt hdigit,
        UInt8.toNat_ofNat_of_lt' (by simpa using hdigit), Nat.div_add_mod']

theorem bytesOf_valueOf (bytes : Bytes) : bytesOf bytes.length (valueOf bytes) = bytes := by
  induction bytes with
  | nil => rfl
  | cons byte rest ih =>
      have hrest := valueOf_lt rest
      have hpos : 0 < 256 ^ rest.length := Nat.pow_pos (by decide)
      have hhead : valueOf (byte :: rest) / 256 ^ rest.length = byte.toNat := by
        rw [valueOf, Nat.add_comm, Nat.add_mul_div_right _ _ hpos, Nat.div_eq_of_lt hrest,
          Nat.zero_add]
      have htail : valueOf (byte :: rest) % 256 ^ rest.length = valueOf rest := by
        rw [valueOf, Nat.add_comm, Nat.add_mul_mod_self_right, Nat.mod_eq_of_lt hrest]
      rw [List.length_cons, bytesOf, hhead, htail, ih,
        Nat.mod_eq_of_lt (by simpa using byte.toNat_lt), UInt8.ofNat_toNat]

/-! ## A header -/

/-- Integers with their widths, one after the other. -/
def writeInts : List (Nat × Nat) → Bytes
  | [] => []
  | (width, value) :: rest => bytesOf width value ++ writeInts rest

/-- The integers of the given widths at the start of a text, and the rest. -/
def readInts : List Nat → Bytes → List Nat × Bytes
  | [], bytes => ([], bytes)
  | width :: widths, bytes =>
      (valueOf (bytes.take width) :: (readInts widths (bytes.drop width)).1,
        (readInts widths (bytes.drop width)).2)

theorem length_writeInts (header : List (Nat × Nat)) :
    (writeInts header).length = (header.map Prod.fst).sum := by
  induction header with
  | nil => rfl
  | cons entry rest ih => simp [writeInts, ih]

/-- What is written is read back. -/
theorem readInts_writeInts {header : List (Nat × Nat)}
    (hfits : ∀ entry ∈ header, entry.2 < 256 ^ entry.1) (body : Bytes) :
    readInts (header.map Prod.fst) (writeInts header ++ body) = (header.map Prod.snd, body) := by
  induction header with
  | nil => rfl
  | cons entry rest ih =>
      obtain ⟨hfirst, hrest⟩ := List.forall_mem_cons.mp hfits
      have htake : (writeInts (entry :: rest) ++ body).take entry.1 = bytesOf entry.1 entry.2 := by
        rw [writeInts, List.append_assoc, List.take_left' (length_bytesOf _ _)]
      have hdrop : (writeInts (entry :: rest) ++ body).drop entry.1 = writeInts rest ++ body := by
        rw [writeInts, List.append_assoc, List.drop_left' (length_bytesOf _ _)]
      rw [List.map_cons, readInts, htake, hdrop, ih hrest, valueOf_bytesOf hfirst]
      rfl

variable {bytes : Bytes}

/-- What is read can be written back. -/
theorem writeInts_readInts {widths : List Nat} (hlength : widths.sum ≤ bytes.length) :
    writeInts (widths.zip (readInts widths bytes).1) ++ (readInts widths bytes).2 = bytes := by
  induction widths generalizing bytes with
  | nil => rfl
  | cons width widths ih =>
      rw [List.sum_cons] at hlength
      have hfirst : (bytes.take width).length = width := by
        rw [List.length_take]
        omega
      have hword : bytesOf width (valueOf (bytes.take width)) = bytes.take width := by
        nth_rewrite 1 [← hfirst]
        exact bytesOf_valueOf _
      have hrest := @ih (bytes.drop width) (by rw [List.length_drop]; omega)
      rw [readInts, List.zip_cons_cons, writeInts, hword, List.append_assoc, hrest,
        List.take_append_drop]

/-! ## A body -/

/-- The fields of the given lengths at the start of a text. -/
def splitFields : List Nat → Bytes → List Bytes
  | [], _ => []
  | length :: lengths, bytes =>
      bytes.take length :: splitFields lengths (bytes.drop length)

theorem splitFields_flatten (fields : List Bytes) :
    splitFields (fields.map List.length) fields.flatten = fields := by
  induction fields with
  | nil => rfl
  | cons field rest ih =>
      rw [List.map_cons, List.flatten_cons, splitFields, List.take_left, List.drop_left, ih]

theorem flatten_splitFields {lengths : List Nat} (h : lengths.sum = bytes.length) :
    (splitFields lengths bytes).flatten = bytes := by
  induction lengths generalizing bytes with
  | nil =>
      have hnil : bytes = [] := List.length_eq_zero_iff.mp (by simpa using h.symm)
      rw [hnil]
      rfl
  | cons length lengths ih =>
      rw [List.sum_cons] at h
      rw [splitFields, List.flatten_cons, ih (by rw [List.length_drop]; omega),
        List.take_append_drop]

theorem map_length_splitFields {lengths : List Nat} (h : lengths.sum ≤ bytes.length) :
    (splitFields lengths bytes).map List.length = lengths := by
  induction lengths generalizing bytes with
  | nil => rfl
  | cons length lengths ih =>
      rw [List.sum_cons] at h
      rw [splitFields, List.map_cons, ih (by rw [List.length_drop]; omega), List.length_take,
        Nat.min_eq_left (by omega)]

end Ubiq.Foundation.BigEndian
