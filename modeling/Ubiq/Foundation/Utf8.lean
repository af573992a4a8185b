import Ubiq.Foundation.Bytes

/-!
# UTF-8

A byte string is cut into the characters of RFC 3629 and the bytes that begin none, the way a
decoder does that goes on behind an invalid byte. `repair` puts U+FFFD in the place of every such
byte; `pieces_repair` says that the repaired string is cut at the same places.
-/

namespace Ubiq.Foundation.Utf8

/-- `UTF8-tail`. -/
def isTail (byte : UInt8) : Bool := 0x80 ≤ byte && byte ≤ 0xBF

/-- The first two bytes of a character of three bytes: no overlong form and no surrogate. -/
def leadsThree (a b : UInt8) : Bool :=
  if a = 0xE0 then 0xA0 ≤ b && b ≤ 0xBF
  else if a = 0xED then 0x80 ≤ b && b ≤ 0x9F
  else 0xE1 ≤ a && a ≤ 0xEF && isTail b

/-- The first two bytes of a character of four bytes: no overlong form and nothing above
U+10FFFF. -/
def leadsFour (a b : UInt8) : Bool :=
  if a = 0xF0 then 0x90 ≤ b && b ≤ 0xBF
  else if a = 0xF4 then 0x80 ≤ b && b ≤ 0x8F
  else 0xF1 ≤ a && a ≤ 0xF3 && isTail b

/-- `UTF8-char`. -/
def isCharacter : Bytes → Bool
  | [a] => a ≤ 0x7F
  | [a, b] => 0xC2 ≤ a && a ≤ 0xDF && isTail b
  | [a, b, c] => leadsThree a b && isTail c
  | [a, b, c, d] => leadsFour a b && isTail c && isTail d
  | _ => false

/-- The bytes of one character. -/
structure Character where
  bytes : Bytes
  encoded : isCharacter bytes = true
deriving DecidableEq

/-- U+FFFD. -/
def replacement : Character := ⟨[0xEF, 0xBF, 0xBD], rfl⟩

/-- A character, or a byte that begins none. -/
inductive Piece
  | character (char : Character)
  | stray (byte : UInt8)
deriving DecidableEq

/-- The pieces of a text. -/
def pieces : Bytes → List Piece
  | [] => []
  | a :: rest =>
      if h : isCharacter [a] then .character ⟨[a], h⟩ :: pieces rest
      else
        match rest with
        | [] => [.stray a]
        | b :: rest =>
            if h : isCharacter [a, b] then .character ⟨[a, b], h⟩ :: pieces rest
            else
              match rest with
              | [] => .stray a :: pieces [b]
              | c :: rest =>
                  if h : isCharacter [a, b, c] then .character ⟨[a, b, c], h⟩ :: pieces rest
                  else
                    match rest with
                    | [] => .stray a :: pieces [b, c]
                    | d :: rest =>
                        if h : isCharacter [a, b, c, d] then
                          .character ⟨[a, b, c, d], h⟩ :: pieces rest
                        else .stray a :: pieces (b :: c :: d :: rest)

/-- The piece is no character. -/
def Piece.isStray : Piece → Bool
  | .character _ => false
  | .stray _ => true

/-- Every byte belongs to a character. -/
def valid (text : Bytes) : Bool :=
  (pieces text).all fun piece => !piece.isStray

/-- The character of a piece, U+FFFD for a stray byte. -/
def Piece.repaired : Piece → Character
  | .character char => char
  | .stray _ => replacement

/-- The text with U+FFFD for every stray byte. -/
def repair (text : Bytes) : Bytes :=
  (pieces text).flatMap fun piece => piece.repaired.bytes

/-- The UTF-8 form of a scalar value. -/
def encode (code : Nat) : Bytes :=
  if code < 0x80 then [UInt8.ofNat code]
  else if code < 0x800 then [UInt8.ofNat (0xC0 + code / 64), UInt8.ofNat (0x80 + code % 64)]
  else if code < 0x10000 then
    [UInt8.ofNat (0xE0 + code / 4096), UInt8.ofNat (0x80 + code / 64 % 64),
      UInt8.ofNat (0x80 + code % 64)]
  else
    [UInt8.ofNat (0xF0 + code / 262144), UInt8.ofNat (0x80 + code / 4096 % 64),
      UInt8.ofNat (0x80 + code / 64 % 64), UInt8.ofNat (0x80 + code % 64)]

/-! ## The leading byte says how long a character is -/

variable {a b : UInt8} {text : Bytes}

theorem two_not_one (h : isCharacter [a, b] = true) : isCharacter [a] = false := by
  simp only [isCharacter, Bool.and_eq_true, decide_eq_true_eq] at h
  simp only [isCharacter, decide_eq_false_iff_not]
  intro hle
  have hlow := UInt8.le_iff_toNat_le.mp (UInt8.le_trans h.1.1 hle)
  exact absurd hlow (by decide)

theorem leadsThree_bounds (h : leadsThree a b = true) : (0xE0 ≤ a ∧ a ≤ 0xEF) ∧ 0x80 ≤ b := by
  unfold leadsThree at h
  split at h
  · subst a
    simp only [Bool.and_eq_true, decide_eq_true_eq] at h
    exact ⟨by decide, UInt8.le_trans (by decide) h.1⟩
  · split at h
    · subst a
      simp only [Bool.and_eq_true, decide_eq_true_eq] at h
      exact ⟨by decide, h.1⟩
    · simp only [isTail, Bool.and_eq_true, decide_eq_true_eq] at h
      exact ⟨⟨UInt8.le_trans (by decide) h.1.1, h.1.2⟩, h.2.1⟩

theorem leadsFour_bounds (h : leadsFour a b = true) : 0xF0 ≤ a ∧ 0x80 ≤ b := by
  unfold leadsFour at h
  split at h
  · subst a
    simp only [Bool.and_eq_true, decide_eq_true_eq] at h
    exact ⟨by decide, UInt8.le_trans (by decide) h.1⟩
  · split at h
    · subst a
      simp only [Bool.and_eq_true, decide_eq_true_eq] at h
      exact ⟨by decide, h.1⟩
    · simp only [isTail, Bool.and_eq_true, decide_eq_true_eq] at h
      exact ⟨UInt8.le_trans (by decide) h.1.1, h.2.1⟩

theorem isCharacter_one_of_high (h : 0xE0 ≤ a) : isCharacter [a] = false := by
  simp only [isCharacter, decide_eq_false_iff_not]
  intro hle
  exact absurd (UInt8.le_trans h hle) (by decide)

theorem isCharacter_two_of_high (h : 0xE0 ≤ a) : isCharacter [a, b] = false := by
  rw [Bool.eq_false_iff]
  intro htwo
  simp only [isCharacter, Bool.and_eq_true, decide_eq_true_eq] at htwo
  exact absurd (UInt8.le_trans h htwo.1.2) (by decide)

theorem isCharacter_three_of_high {c : UInt8} (h : 0xF0 ≤ a) :
    isCharacter [a, b, c] = false := by
  rw [Bool.eq_false_iff]
  intro hthree
  simp only [isCharacter, Bool.and_eq_true] at hthree
  exact absurd (UInt8.le_trans h (leadsThree_bounds hthree.1).1.2) (by decide)

/-- Only characters of one byte are ASCII. -/
theorem high_of_isCharacter {bytes : Bytes} (h : isCharacter bytes = true) (hlen : bytes.length ≠ 1) :
    ∀ byte ∈ bytes, 0x80 ≤ byte := by
  have htail : ∀ {byte : UInt8}, isTail byte = true → 0x80 ≤ byte := by
    intro byte hbyte
    simp only [isTail, Bool.and_eq_true, decide_eq_true_eq] at hbyte
    exact hbyte.1
  match bytes, h with
  | [a], _ => exact absurd rfl hlen
  | [a, b], h =>
      simp only [isCharacter, Bool.and_eq_true, decide_eq_true_eq] at h
      simp only [List.forall_mem_cons]
      exact ⟨UInt8.le_trans (by decide) h.1.1, htail h.2, by simp⟩
  | [a, b, c], h =>
      simp only [isCharacter, Bool.and_eq_true] at h
      simp only [List.forall_mem_cons]
      obtain ⟨hfirst, hsecond⟩ := leadsThree_bounds h.1
      exact ⟨UInt8.le_trans (by decide) hfirst.1, hsecond, htail h.2, by simp⟩
  | [a, b, c, d], h =>
      simp only [isCharacter, Bool.and_eq_true] at h
      simp only [List.forall_mem_cons]
      obtain ⟨hfirst, hsecond⟩ := leadsFour_bounds h.1.1
      exact ⟨UInt8.le_trans (by decide) hfirst, hsecond, htail h.1.2, htail h.2, by simp⟩

/-! ## Cutting -/

/-- A character in front of a text is its first piece. -/
theorem pieces_append (char : Character) (rest : Bytes) :
    pieces (char.bytes ++ rest) = .character char :: pieces rest := by
  obtain ⟨bytes, h⟩ := char
  match bytes, h with
  | [a], h =>
      rw [List.singleton_append, pieces.eq_def]
      simp only [h, dite_true]
  | [a, b], h =>
      rw [List.cons_append, List.singleton_append, pieces.eq_def]
      simp only [h, two_not_one h, Bool.false_eq_true, dite_true, dite_false]
  | [a, b, c], h =>
      have hlead := (leadsThree_bounds (Bool.and_eq_true_iff.mp h).1).1.1
      rw [List.cons_append, List.cons_append, List.singleton_append, pieces.eq_def]
      simp only [h, isCharacter_one_of_high hlead, isCharacter_two_of_high hlead,
        Bool.false_eq_true, dite_true, dite_false]
  | [a, b, c, d], h =>
      have hlead := (leadsFour_bounds (Bool.and_eq_true_iff.mp (Bool.and_eq_true_iff.mp h).1).1).1
      have hhigh : 0xE0 ≤ a := UInt8.le_trans (by decide) hlead
      rw [List.cons_append, List.cons_append, List.cons_append, List.singleton_append,
        pieces.eq_def]
      simp only [h, isCharacter_one_of_high hhigh, isCharacter_two_of_high hhigh,
        isCharacter_three_of_high hlead, Bool.false_eq_true, dite_true, dite_false]

theorem pieces_flatMap (chars : List Character) :
    pieces (chars.flatMap Character.bytes) = chars.map .character := by
  induction chars with
  | nil => rfl
  | cons char rest ih => rw [List.flatMap_cons, pieces_append, ih, List.map_cons]

/-- **The repaired text is cut at the same places.** -/
theorem pieces_repair (text : Bytes) :
    pieces (repair text) = (pieces text).map fun piece => .character piece.repaired := by
  have hchars : repair text = ((pieces text).map Piece.repaired).flatMap Character.bytes := by
    rw [repair, List.flatMap_map]
  rw [hchars, pieces_flatMap, List.map_map]
  rfl

theorem repair_repair (text : Bytes) : repair (repair text) = repair text := by
  rw [repair, pieces_repair, List.flatMap_map, repair]
  rfl

/-- The bytes of a piece. -/
def Piece.bytes : Piece → Bytes
  | .character char => char.bytes
  | .stray byte => [byte]

/-- The pieces are the text. -/
theorem flatMap_pieces (text : Bytes) : (pieces text).flatMap Piece.bytes = text := by
  fun_induction pieces text <;> simp_all [Piece.bytes]

theorem repair_eq_nil_iff : repair text = [] ↔ text = [] := by
  constructor
  · intro h
    -- no character is empty, so there is no piece
    have hpieces : pieces text = [] := by
      rw [List.eq_nil_iff_forall_not_mem]
      intro piece hpiece
      have hempty := List.flatMap_eq_nil_iff.mp h piece hpiece
      have hencoded := piece.repaired.encoded
      rw [hempty] at hencoded
      cases hencoded
    rw [← flatMap_pieces text, hpieces, List.flatMap_nil]
  · rintro rfl
    rfl

/-- Nothing is repaired in a valid text. -/
theorem repair_of_valid (h : valid text = true) : repair text = text := by
  have hsame : repair text = (pieces text).flatMap Piece.bytes := by
    apply List.flatMap_congr
    intro piece hmem
    have hpiece := List.all_eq_true.mp h piece hmem
    cases piece with
    | character char => rfl
    | stray byte => simp [Piece.isStray] at hpiece
  rw [hsame, flatMap_pieces]

theorem valid_repair (text : Bytes) : valid (repair text) = true := by
  rw [valid, pieces_repair]
  simp [Piece.isStray]

theorem repair_eq_self_iff : repair text = text ↔ valid text = true :=
  ⟨fun h => h ▸ valid_repair text, repair_of_valid⟩

/-- ASCII is valid. -/
theorem valid_of_ascii (h : ∀ byte ∈ text, byte ≤ 0x7F) : valid text = true := by
  induction text with
  | nil => rfl
  | cons byte text ih =>
      obtain ⟨hbyte, htext⟩ := List.forall_mem_cons.mp h
      have hone : isCharacter [byte] = true := by simpa [isCharacter] using hbyte
      have hpieces := pieces_append ⟨[byte], hone⟩ text
      rw [List.singleton_append] at hpieces
      rw [valid, hpieces, List.all_cons]
      simpa [valid, Piece.isStray] using ih htext

end Ubiq.Foundation.Utf8
